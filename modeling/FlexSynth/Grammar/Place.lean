import FlexSynth.Json.Basic

/-!
# Places in a document

A place is a path of field names and item indices into a JSON document. It is
written as `tokens[2].regex[1]`, and `Place.follow?` finds the value that it
leads to. The first name of a path is kept apart: it is written without a point,
and a value that is not part of a document may go by any name.
-/

namespace FlexSynth

inductive Place.Step where
  | item (index : Nat)
  | field (name : String)
  deriving DecidableEq, Repr

/-- A path into a document: the name of a value and the steps from there. -/
structure Place where
  base : String
  steps : List Place.Step
  deriving DecidableEq, Repr

namespace Place

/-- The value of a name, itself. -/
def named (base : String) : Place := ⟨base, []⟩

/-- The document as a whole, which needs no name. -/
def document : Place := named ""

def item (p : Place) (index : Nat) : Place :=
  { p with steps := p.steps ++ [.item index] }

def field (p : Place) (name : String) : Place :=
  { p with steps := p.steps ++ [.field name] }

def Step.text : Step → String
  | .item index => s!"[{index}]"
  | .field name => s!".{name}"

def text (p : Place) : String :=
  p.base ++ String.join (p.steps.map Step.text)

def Step.follow? (value : Json) : Step → Option Json
  | .item index => value.item? index
  | .field name => value.field? name

/-- The value at a place of a document. -/
def follow? (p : Place) (document : Json) : Option Json := do
  let start ← document.field? p.base
  p.steps.foldlM Step.follow? start

end Place

end FlexSynth
