import FlexSynth.Json.Basic
import FlexSynth.Text.Display

/-!
# Writing JSON

`Json.print` writes a value over several lines, each item and field on a line of
its own and two blanks deeper than its container; an empty container is written
in one piece. The text is ASCII: other characters are written as hexadecimal
escapes of their UTF-16 units.
-/

namespace FlexSynth.Json

/-- The escape of one UTF-16 unit. -/
def unitEscape (unit : Nat) : List Char :=
  '\\' :: 'u' :: Text.hex 4 unit

/-- The escape of a character by its UTF-16 units. -/
def hexEscape (c : Char) : List Char :=
  if c.toNat < 0x10000 then unitEscape c.toNat
  else
    unitEscape (0xd800 + (c.toNat - 0x10000) / 0x400)
      ++ unitEscape (0xdc00 + (c.toNat - 0x10000) % 0x400)

def stringChar (c : Char) : List Char :=
  if c = '"' ∨ c = '\\' then ['\\', c]
  else if c = '\n' then ['\\', 'n']
  else if c = '\r' then ['\\', 'r']
  else if c = '\t' then ['\\', 't']
  else if c = '\x0c' then ['\\', 'f']
  else if c = '\x08' then ['\\', 'b']
  else if 0x20 ≤ c.toNat ∧ c.toNat ≤ 0x7e then [c]
  else hexEscape c

def printString (text : String) : List Char :=
  '"' :: (text.toList.flatMap stringChar ++ ['"'])

def newLine (depth : Nat) : List Char :=
  '\n' :: List.replicate (2 * depth) ' '

mutual

/-- A value that starts at a depth. -/
def printAt (depth : Nat) : Json → List Char
  | .null => "null".toList
  | .bool true => "true".toList
  | .bool false => "false".toList
  | .number lexeme => lexeme.toList
  | .string text => printString text
  | .array [] => ['[', ']']
  | .array (item :: rest) =>
    '[' :: (newLine (depth + 1) ++ printAt (depth + 1) item ++ printItems (depth + 1) rest
      ++ newLine depth ++ [']'])
  | .object [] => ['{', '}']
  | .object ((name, item) :: rest) =>
    '{' :: (newLine (depth + 1) ++ printString name ++ ':' :: ' ' :: printAt (depth + 1) item
      ++ printFields (depth + 1) rest ++ newLine depth ++ ['}'])

def printItems (depth : Nat) : List Json → List Char
  | [] => []
  | item :: rest => ',' :: (newLine depth ++ printAt depth item ++ printItems depth rest)

def printFields (depth : Nat) : List (String × Json) → List Char
  | [] => []
  | (name, item) :: rest =>
    ',' :: (newLine depth ++ printString name ++ ':' :: ' ' :: printAt depth item
      ++ printFields depth rest)

end

def print (value : Json) : String :=
  String.ofList (printAt 0 value)

end FlexSynth.Json
