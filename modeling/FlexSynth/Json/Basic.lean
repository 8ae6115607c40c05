/-!
# JSON values

A value keeps the order of the fields of an object and at most one field of a
name. Numbers are kept as they are written, for no rule here looks at their
value.
-/

namespace FlexSynth

inductive Json where
  | null
  | bool (value : Bool)
  | number (lexeme : String)
  | string (text : String)
  | array (items : List Json)
  | object (fields : List (String × Json))
  deriving Inhabited, Repr

namespace Json

/-- Sets a field: in its place when there is one of that name, else at the end. -/
def putField (name : String) (value : Json) :
    List (String × Json) → List (String × Json)
  | [] => [(name, value)]
  | (n, v) :: rest =>
    if n = name then (n, value) :: rest else (n, v) :: putField name value rest

/-- The fields of a list of name and value pairs, in which the last value of a
name counts. -/
def fieldsOf (pairs : List (String × Json)) : List (String × Json) :=
  pairs.foldl (fun fields (name, value) => putField name value fields) []

def text? : Json → Option String
  | .string text => some text
  | _ => none

def item? (index : Nat) : Json → Option Json
  | .array items => items[index]?
  | _ => none

def field? (name : String) : Json → Option Json
  | .object fields => fields.lookup name
  | _ => none

end Json

end FlexSynth
