/-!
# TOML values

Configuration files are TOML. Of numbers and of dates and times only the text is
kept, for no option has such a value. A table keeps its keys in order, each once.

`Table.update?` works on the table behind a dotted key and makes the tables on
the way that do not exist yet.
-/

namespace FlexSynth.Toml

/-- A value. An array of tables is an array whose items are tables. -/
inductive Value where
  | string (text : String)
  | bool (value : Bool)
  | number (lexeme : String)
  /-- A date, a time or both. -/
  | moment (lexeme : String)
  | array (items : List Value)
  | table (fields : List (String × Value))
  deriving Inhabited, Repr

abbrev Table := List (String × Value)

abbrev Key := List String

namespace Table

def get? (t : Table) (name : String) : Option Value :=
  t.lookup name

/-- Sets the value of a key: in its place when it is there, else at the end. -/
def put (name : String) (value : Value) : Table → Table
  | [] => [(name, value)]
  | (n, v) :: rest => if n = name then (n, value) :: rest else (n, v) :: put name value rest

def has (t : Table) (name : String) : Bool :=
  (t.get? name).isSome

/-- Works on the table behind a key. A key that leads to an array stands for its
last item when `enterArrays` is set. There is no result when a part of the key
leads to something else than a table, or when the work has none. -/
def update? (enterArrays : Bool) (f : Table → Option Table) : Key → Table → Option Table
  | [], t => f t
  | name :: rest, t =>
    match t.get? name with
    | none => do
      let inner ← update? enterArrays f rest []
      return t.put name (.table inner)
    | some (.table fields) => do
      let inner ← update? enterArrays f rest fields
      return t.put name (.table inner)
    | some (.array items) =>
      match enterArrays, items.getLast? with
      | true, some (.table fields) => do
        let inner ← update? enterArrays f rest fields
        return t.put name (.array (items.dropLast ++ [.table inner]))
      | _, _ => none
    | some _ => none

/-- Adds an empty table to the array of a key, which starts when it is missing. -/
def addItem? (name : String) (t : Table) : Option Table :=
  match t.get? name with
  | none => some (t.put name (.array [.table []]))
  | some (.array items) => some (t.put name (.array (items ++ [.table []])))
  | some _ => none

/-- Gives a key its first value. -/
def define? (name : String) (value : Value) (t : Table) : Option Table :=
  if t.has name then none else some (t.put name value)

def table? (t : Table) (name : String) : Option Table :=
  match t.get? name with
  | some (.table fields) => some fields
  | _ => none

def string? (t : Table) (name : String) : Option String :=
  match t.get? name with
  | some (.string text) => some text
  | _ => none

def bool? (t : Table) (name : String) : Option Bool :=
  match t.get? name with
  | some (.bool value) => some value
  | _ => none

end Table

end FlexSynth.Toml
