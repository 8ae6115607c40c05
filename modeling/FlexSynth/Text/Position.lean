/-!
# Positions in a text

A position is a line and a character in that line, both counted from zero. Only
a newline ends a line. `Position.ofOffset` turns a number of characters before a
place into the position of that place, and `find?` looks for a text in another.
-/

namespace FlexSynth.Text

/-- A line and a character in it, counted from zero. -/
structure Position where
  line : Nat
  character : Nat
  deriving DecidableEq, Repr

def Position.start : Position := ⟨0, 0⟩

/-- The position just after a character that stands at `p`. -/
def Position.next (p : Position) (c : Char) : Position :=
  if c = '\n' then ⟨p.line + 1, 0⟩ else ⟨p.line, p.character + 1⟩

/-- The position of the place that has `offset` characters before it. -/
def Position.ofOffset (source : List Char) (offset : Nat) : Position :=
  (source.take offset).foldl Position.next .start

/-- The number of characters before the first occurrence of `needle`. -/
def firstOccurrence? (needle : List Char) : List Char → Option Nat
  | [] => if needle.isEmpty then some 0 else none
  | c :: rest =>
    if needle.isPrefixOf (c :: rest) then some 0
    else (firstOccurrence? needle rest).map (· + 1)

/-- The offset of the first occurrence of `needle` at or after `start`. There is
none when `start` lies behind the end, not even of the empty text. -/
def find? (source needle : List Char) (start : Nat) : Option Nat :=
  if start ≤ source.length then
    (firstOccurrence? needle (source.drop start)).map (start + ·)
  else none

/-- A place given from the end when it is negative, and never before the start. -/
def clampStart (length : Nat) (start : Int) : Nat :=
  if start < 0 then (start + length).toNat else start.toNat

/-- The position of the first occurrence of `needle` at or after `start`, or the
start of the text when there is none. -/
def positionOf (source needle : List Char) (start : Int) : Position :=
  match find? source needle (clampStart source.length start) with
  | some offset => .ofOffset source offset
  | none => .start

end FlexSynth.Text
