import FlexSynth.Text.Join

/-!
# Paths

A path is kept in normal form: empty parts and parts that are a single point are
left out, and a part of two points is kept, for what it means depends on the
files. The empty path is the current directory and is written as a point.
-/

namespace FlexSynth

/-- A path: the slashes that it starts with, none in a relative path, and its
parts. -/
structure Path where
  root : String
  parts : List String
  deriving DecidableEq, Repr

namespace Path

def splitSlashes : List Char → List (List Char)
  | [] => [[]]
  | c :: rest =>
    if c = '/' then [] :: splitSlashes rest
    else match splitSlashes rest with
      | [] => [[c]]
      | part :: more => (c :: part) :: more

/-- What a text starts with: exactly two slashes stay two, and more count as one. -/
def rootOf : List Char → String
  | '/' :: '/' :: '/' :: _ => "/"
  | '/' :: '/' :: _ => "//"
  | '/' :: _ => "/"
  | _ => ""

def ofString (text : String) : Path where
  root := rootOf text.toList
  parts := ((splitSlashes text.toList).map String.ofList).filter fun part =>
    part ≠ "" && part ≠ "."

def text (p : Path) : String :=
  if p.root.isEmpty && p.parts.isEmpty then "." else p.root ++ Text.joinWith "/" p.parts

def name (p : Path) : String :=
  p.parts.getLast?.getD ""

def parent (p : Path) : Path :=
  { p with parts := p.parts.dropLast }

def child (p : Path) (name : String) : Path :=
  { p with parts := p.parts ++ [name] }

/-- A name without its last extension. A point at the start or at the end of a
name starts no extension. -/
def withoutExtension (name : List Char) : List Char :=
  match name.reverse.span (· ≠ '.') with
  | ([], _) => name
  | (_, '.' :: before) => if before.isEmpty then name else before.reverse
  | _ => name

/-- The last part of a path, without its extension. -/
def stem (p : Path) : String :=
  String.ofList (withoutExtension p.name.toList)

end Path

end FlexSynth
