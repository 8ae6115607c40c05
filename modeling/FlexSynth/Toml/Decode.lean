import FlexSynth.Toml.Scalar

/-!
# Reading TOML

`Toml.decode` reads a document line by line. What a key may still do is kept as
marks on dotted keys:

* the key of an inline table or array is frozen, and everything below it;
* a key that a table header or a dotted key has opened cannot be opened again by
  a header, nor can a dotted key reach through a header's table from outside. The
  containers of a dotted key are only marked when the next header comes, so the
  lines of one table may share them.

A header of an array of tables frees the keys below it, for they now mean those
of the new item.
-/

namespace FlexSynth.Toml

/-! ## Marks -/

/-- What has been declared about keys. -/
structure Marks where
  frozen : List Key := []
  opened : List Key := []
  pending : List Key := []
  deriving DecidableEq, Repr

namespace Marks

/-- Whether a key lies in an inline table or array. -/
def isFrozen (m : Marks) (key : Key) : Bool :=
  m.frozen.any (·.isPrefixOf key)

def isOpened (m : Marks) (key : Key) : Bool :=
  m.opened.contains key

def freeze (m : Marks) (key : Key) : Marks :=
  { m with frozen := key :: m.frozen }

def openKey (m : Marks) (key : Key) : Marks :=
  { m with opened := key :: m.opened }

/-- Opens a key when the next header comes. -/
def openLater (m : Marks) (key : Key) : Marks :=
  { m with pending := key :: m.pending }

def settle (m : Marks) : Marks :=
  { m with opened := m.pending ++ m.opened, pending := [] }

/-- Forgets the marks of a key and of everything below it. -/
def free (m : Marks) (key : Key) : Marks :=
  { m with frozen := m.frozen.filter (!key.isPrefixOf ·)
           opened := m.opened.filter (!key.isPrefixOf ·) }

end Marks

/-! ## Keys -/

def keyPart : List Char → Except Stop (Reading String)
  | '\'' :: rest => literalString rest
  | '"' :: rest => basicString rest
  | c :: rest =>
    if isKeyChar c then
      .ok (String.ofList (c :: rest.takeWhile isKeyChar), rest.dropWhile isKeyChar)
    else stopAt .missingKey (c :: rest)
  | [] => stopAt .missingKey []

/-- Reads a dotted key and the blanks after it; `parts` bounds the recursion. -/
def dottedKey : (parts : Nat) → List Char → Except Stop (Reading Key)
  | 0, cs => stopAt .missingKey cs
  | parts + 1, cs => do
    let (name, rest) ← keyPart cs
    match skipBlanks rest with
    | '.' :: rest => do
      let (names, rest) ← dottedKey parts (skipBlanks rest)
      return (name :: names, rest)
    | rest => return ([name], rest)

def key (cs : List Char) : Except Stop (Reading Key) :=
  dottedKey (cs.length + 1) cs

/-- Reads a dotted key, an equals sign and the blanks after it. -/
def keyAndEquals (cs : List Char) : Except Stop (Reading Key) := do
  let (names, rest) ← key cs
  match rest with
  | '=' :: rest => return (names, skipBlanks rest)
  | rest => stopAt .missingEquals rest

/-- The containers of a key: what stands before its last part. -/
def containerOf (key : Key) : Key :=
  key.dropLast

def stemOf (key : Key) : String :=
  key.getLast?.getD ""

/-! ## Values -/

/-- The characters after blanks, newlines and comments. -/
def skipFiller : (inComment : Bool) → List Char → Except Stop (List Char)
  | _, [] => .ok []
  | false, c :: rest =>
    if isBlank c ∨ c = '\n' then skipFiller false rest
    else if c = '#' then skipFiller true rest
    else .ok (c :: rest)
  | true, c :: rest =>
    if c = '\n' then skipFiller false rest
    else if isForbidden c then stopAt (.invalidChar c) (c :: rest)
    else skipFiller true rest

def Value.isContainer : Value → Bool
  | .array _ | .table _ => true
  | _ => false

/-- Adds a key to an inline table, in which the keys of `marks` are frozen; `rest`
are the characters after the value. -/
def addInline (marks : Marks) (table : Table) (key : Key) (value : Value) (rest : List Char) :
    Except Stop Table :=
  if marks.isFrozen key then stopAt (.frozen key) rest
  else
    match table.update? false some (containerOf key) with
    | none => stopAt .overwritten rest
    | some table =>
      match table.update? false (Table.define? (stemOf key) value) (containerOf key) with
      | none => stopAt (.duplicateKey (stemOf key)) rest
      | some table => .ok table

mutual

/-- Reads a value; `depth` bounds the recursion. -/
def value : (depth : Nat) → List Char → Except Stop (Reading Value)
  | 0, cs => stopAt .invalidValue cs
  | depth + 1, cs =>
    match cs with
    | '"' :: '"' :: '"' :: rest => do
      let (text, rest) ← multilineString '"' rest
      return (.string text, rest)
    | '"' :: rest => do
      let (text, rest) ← basicString rest
      return (.string text, rest)
    | '\'' :: '\'' :: '\'' :: rest => do
      let (text, rest) ← multilineString '\'' rest
      return (.string text, rest)
    | '\'' :: rest => do
      let (text, rest) ← literalString rest
      return (.string text, rest)
    | '[' :: rest => do
      let (items, rest) ← arrayItems depth rest
      return (.array items, rest)
    | '\x7b' :: rest =>
      match skipBlanks rest with
      | '\x7d' :: rest => .ok (.table [], rest)
      | rest => do
        let (fields, rest) ← inlineFields depth {} [] rest
        return (.table fields, rest)
    | cs => plainScalar cs

/-- Reads the items of an array that are left, and its closing bracket. -/
def arrayItems : (depth : Nat) → List Char → Except Stop (Reading (List Value))
  | 0, cs => stopAt .openArray cs
  | depth + 1, cs => do
    match ← skipFiller false cs with
    | ']' :: rest => return ([], rest)
    | rest => do
      let (item, rest) ← value depth rest
      match ← skipFiller false rest with
      | ']' :: rest => return ([item], rest)
      | ',' :: rest => do
        let (items, rest) ← arrayItems depth rest
        return (item :: items, rest)
      | rest => stopAt .openArray rest

/-- Reads the fields of an inline table that are left, and its closing brace. -/
def inlineFields : (depth : Nat) → Marks → Table → List Char → Except Stop (Reading Table)
  | 0, _, _, cs => stopAt .openInlineTable cs
  | depth + 1, marks, table, cs => do
    let (key, rest) ← keyAndEquals cs
    let (item, rest) ← value depth rest
    let table ← addInline marks table key item rest
    match skipBlanks rest with
    | '\x7d' :: rest => return (table, rest)
    | ',' :: rest =>
      let marks := if item.isContainer then marks.freeze key else marks
      inlineFields depth marks table (skipBlanks rest)
    | rest => stopAt .openInlineTable rest

end

/-! ## Statements -/

/-- A document in the middle of reading: what it holds, what has been declared,
and the table of the last header. -/
structure State where
  table : Table := []
  marks : Marks := {}
  header : Key := []

/-- Marks the containers of a dotted key, from the outermost, unless a header has
opened one of them. -/
def markContainers (rest : List Char) (marks : Marks) : List Key → Except Stop Marks
  | [] => .ok marks
  | container :: more =>
    if marks.isOpened container then stopAt (.redefined container) rest
    else markContainers rest (marks.openLater container) more

/-- The containers of a key within the table of a header, from the outermost. -/
def containersOf (header key : Key) : List Key :=
  (List.range (key.length - 1)).map fun n => header ++ key.take (n + 1)

def keyValue (s : State) (cs : List Char) : Except Stop (Reading State) := do
  let (key, rest) ← keyAndEquals cs
  let (item, rest) ← value (2 * rest.length + 2) rest
  let container := s.header ++ containerOf key
  let marks ← markContainers rest s.marks (containersOf s.header key)
  if marks.isFrozen container then stopAt (.frozen container) rest
  else
    match s.table.update? true (Table.define? (stemOf key) item) container with
    | none => stopAt .overwritten rest
    | some table =>
      let marks := if item.isContainer then marks.freeze (s.header ++ key) else marks
      return ({ s with table, marks }, rest)

/-- Reads the header of a table after its bracket. -/
def tableHeader (s : State) (cs : List Char) : Except Stop (Reading State) := do
  let (key, rest) ← key (skipBlanks cs)
  if s.marks.isOpened key || s.marks.isFrozen key then stopAt (.declaredTwice key) rest
  else
    match s.table.update? true some key with
    | none => stopAt .overwritten rest
    | some table =>
      match rest with
      | ']' :: rest => return ({ table, marks := s.marks.openKey key, header := key }, rest)
      | rest => stopAt .openTableHeader rest

/-- Reads the header of an item of an array of tables after its brackets. -/
def arrayHeader (s : State) (cs : List Char) : Except Stop (Reading State) := do
  let (key, rest) ← key (skipBlanks cs)
  if s.marks.isFrozen key then stopAt (.frozen key) rest
  else
    match s.table.update? true (Table.addItem? (stemOf key)) (containerOf key) with
    | none => stopAt .overwritten rest
    | some table =>
      match rest with
      | ']' :: ']' :: rest =>
        return ({ table, marks := (s.marks.free key).openKey key, header := key }, rest)
      | rest => stopAt .openArrayHeader rest

/-- Reads what one line states, up to a comment or the end of the line. -/
def statement (s : State) : List Char → Except Stop (Reading State)
  | '[' :: '[' :: rest => arrayHeader { s with marks := s.marks.settle } rest
  | '[' :: rest => tableHeader { s with marks := s.marks.settle } rest
  | '#' :: rest => .ok (s, '#' :: rest)
  | c :: rest =>
    if isKeyChar c ∨ c = '"' ∨ c = '\'' then keyValue s (c :: rest)
    else stopAt .invalidStatement (c :: rest)
  | [] => .ok (s, [])

/-- The characters after a comment, if there is one. -/
def skipComment (cs : List Char) : Except Stop (List Char) :=
  match cs with
  | '#' :: rest =>
    match rest.dropWhile (!isForbidden ·) with
    | [] => .ok []
    | '\n' :: rest => .ok ('\n' :: rest)
    | c :: rest => stopAt (.invalidChar c) (c :: rest)
  | cs => .ok cs

/-- Reads the lines that are left; `lines` bounds their number. -/
def statements : (lines : Nat) → State → List Char → Except Stop Table
  | 0, s, _ => .ok s.table
  | lines + 1, s, cs =>
    match skipBlanks cs with
    | [] => .ok s.table
    | '\n' :: rest => statements lines s rest
    | cs => do
      let (s, rest) ← statement s cs
      match ← skipComment (skipBlanks rest) with
      | [] => return s.table
      | '\n' :: rest => statements lines s rest
      | rest => stopAt .missingLineEnd rest

/-- Turns a carriage return and a newline into one newline. -/
def joinLineEnds : List Char → List Char
  | '\r' :: '\n' :: rest => '\n' :: joinLineEnds rest
  | c :: rest => c :: joinLineEnds rest
  | [] => []

/-- The table that a document stands for. -/
def decode (source : String) : Except DecodeError Table :=
  let cs := joinLineEnds source.toList
  (statements (cs.length + 1) {} cs).mapError (·.inDocument cs)

end FlexSynth.Toml
