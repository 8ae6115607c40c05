import FlexSynth.Grammar.Basic
import FlexSynth.Grammar.Error

/-!
# The schema of a grammar file

A grammar file is a JSON object with the fields `categories`, `symbols`,
`reserved`, `tokens` and `comments`, each of which may be missing. A regular
expression is a list that starts with its kind, as in `["plus", ["digit"]]`.

The document is checked from the front: unknown fields, categories, symbols,
reserved words, tokens, comments. A list is checked for the type of all its
elements before any element is looked into, and an expression before its
operands. The first violation is reported, at the place of the value.
-/

namespace FlexSynth

/-- Checks the schema: a result, or the first violation. -/
abbrev Checked (α : Type) := Except Violation α

def violation {α : Type} (fault : SchemaFault) (place : Place) : Checked α :=
  .error ⟨fault, place⟩

/-- Applies a check to every element of a list, with the place of the element. -/
def checkItems {α β : Type} (check : α → Place → Checked β) (place : Place) :
    (index : Nat) → List α → Checked (List β)
  | _, [] => .ok []
  | index, a :: rest => do
    let b ← check a (place.item index)
    let bs ← checkItems check place (index + 1) rest
    return b :: bs

/-! ## Regular expressions -/

/-- The kinds of an expression without operands. -/
def atoms : List (String × Regex) :=
  [("eps", .eps), ("digit", .named .digit), ("letter", .named .letter),
   ("upper", .named .upper), ("lower", .named .lower), ("any", .any)]

def checkCount (kind : String) (operands : List Json) (expected : Nat) (place : Place) :
    Checked Unit :=
  if operands.length = expected then .ok ()
  else violation (.operandCount kind expected operands.length) place

def textOperand (kind : String) (operands : List Json) (place : Place) : Checked String := do
  checkCount kind operands 1 place
  match operands with
  | [.string text] => return text
  | _ => violation (.notText kind) place

/-- The operand of a kind that takes a character. -/
def charOperand (operands : List Json) (place : Place) : Checked String := do
  checkCount "char" operands 1 place
  match operands with
  | [.string text] => if text.length = 1 then return text else violation .notOneCharacter place
  | _ => violation .notOneCharacter place

/-- The kinds of an expression that stand before other expressions, with the
number of operands that they take; a sequence and an alternation take any. -/
inductive Operator where
  | star
  | plus
  | opt
  | seq
  | alt
  | minus
  deriving DecidableEq, Repr

def Operator.ofKind? : String → Option Operator
  | "star" => some .star
  | "plus" => some .plus
  | "opt" => some .opt
  | "seq" => some .seq
  | "alt" => some .alt
  | "minus" => some .minus
  | _ => none

/-- The number of operands of an operator that takes a fixed number. -/
def Operator.arity? : Operator → Option Nat
  | .star | .plus | .opt => some 1
  | .minus => some 2
  | .seq | .alt => none

/-- The expression that an operator makes of its operands, if it takes so many. -/
def Operator.apply? : Operator → List Regex → Option Regex
  | .star, [r] => some (.star r)
  | .plus, [r] => some (.plus r)
  | .opt, [r] => some (.opt r)
  | .minus, [l, r] => some (.minus l r)
  | .seq, rs => some (Regex.sequence rs)
  | .alt, rs => Regex.alternation? rs
  | _, _ => none

mutual

/-- The expression that a node stands for. -/
def regexOf (place : Place) : Json → Checked Regex
  | .array (.string kind :: operands) =>
    match atoms.lookup kind with
    | some r => do
      checkCount kind operands 0 place
      return r
    | none =>
      match Operator.ofKind? kind with
      | some op => do
        if let some n := op.arity? then
          checkCount kind operands n place
        let parts ← regexesOf place 1 operands
        match op.apply? parts with
        | some r => return r
        | none => violation .noBranches place
      | none =>
        match kind with
        | "char" => do return .char (← charOperand operands place)
        | "seqs" => do return .word (← textOperand kind operands place)
        | "alts" => do return .oneOf (← textOperand kind operands place)
        | _ => violation (.unknownKind kind) place
  | _ => violation .notNode place

/-- The expressions that the operands of a node stand for, from an index on. -/
def regexesOf (place : Place) (index : Nat) : List Json → Checked (List Regex)
  | [] => .ok []
  | node :: rest => do
    let r ← regexOf (place.item index) node
    let rs ← regexesOf place (index + 1) rest
    return r :: rs

end

/-! ## The other fields -/

def stringsOf (place : Place) : Json → Checked (List String)
  | .array items =>
    match items.mapM Json.text? with
    | some texts => .ok texts
    | none => violation .notStrings place
  | _ => violation .notStrings place

def nonEmptyStrings (fault : SchemaFault) (place : Place) (value : Json) :
    Checked (List String) := do
  let texts ← stringsOf place value
  checkItems (fun text place => if text.isEmpty then violation fault place else .ok text)
    place 0 texts

def categoryOf (name : String) (place : Place) : Checked Category :=
  match Category.ofName? name with
  | some c => .ok c
  | none => violation (.unknownCategory name) place

/-- A token category: an object with a name and an expression. -/
def tokenOf (value : Json) (place : Place) : Checked TokenPragma :=
  match value with
  | .object fields =>
    match fields.lookup "name" with
    | some (.string name) =>
      if name.isEmpty then violation .tokenUnnamed place
      else match fields.lookup "regex" with
        | some node => do
          let regex ← regexOf (place.field "regex") node
          return ⟨name, regex⟩
        | none => violation (.tokenWithoutRegex name) place
    | _ => violation .tokenUnnamed place
  | _ => violation .tokenNotObject place

def blockOf (value : Json) (place : Place) : Checked BlockForm :=
  match value with
  | .array [.string start, .string stop] =>
    if start.isEmpty || stop.isEmpty then violation .notDelimiterPair place
    else .ok ⟨start, stop⟩
  | _ => violation .notDelimiterPair place

/-- A field, or what stands for it when it is missing. -/
def fieldOr (fields : List (String × Json)) (name : String) (missing : Json) : Json :=
  (fields.lookup name).getD missing

def commentsOf (value : Json) : Checked CommentForms :=
  let place := Place.named "comments"
  match value with
  | .object fields => do
    let line ← nonEmptyStrings .emptyDelimiter (place.field "line")
      (fieldOr fields "line" (.array []))
    match fieldOr fields "block" (.array []) with
    | .array items => do
      let block ← checkItems blockOf (place.field "block") 0 items
      return ⟨line, block⟩
    | _ => violation .blocksNotList (place.field "block")
  | _ => violation .commentsNotObject place

def grammarKeys : List String :=
  ["categories", "symbols", "reserved", "tokens", "comments"]

/-- The smaller of two texts, by code points. -/
def smaller (a b : String) : String :=
  if b < a then b else a

/-- The smallest key that a grammar may not have. -/
def unknownKey? (fields : List (String × Json)) : Option String :=
  match (fields.map (·.1)).filter (!grammarKeys.contains ·) with
  | [] => none
  | key :: rest => some (rest.foldl smaller key)

/-- The grammar that a document stands for. -/
def grammarOf (document : Json) : Checked LexicalGrammar :=
  match document with
  | .object fields =>
    match unknownKey? fields with
    | some key => violation (.unknownKey key) .document
    | none => do
      let names ← stringsOf (.named "categories") (fieldOr fields "categories" (.array []))
      let categories ← checkItems categoryOf (.named "categories") 0 names
      let symbols ← nonEmptyStrings .emptyKeyword (.named "symbols")
        (fieldOr fields "symbols" (.array []))
      let reserved ← nonEmptyStrings .emptyKeyword (.named "reserved")
        (fieldOr fields "reserved" (.array []))
      match fieldOr fields "tokens" (.array []) with
      | .array items => do
        let tokens ← checkItems tokenOf (.named "tokens") 0 items
        let comments ← commentsOf (fieldOr fields "comments" (.object []))
        return ⟨categories, symbols, reserved, tokens, comments⟩
      | _ => violation .tokensNotList (.named "tokens")
  | _ => violation .grammarNotObject .document

/-! ## Grammar files -/

/-- The grammar of a decoded document, with the name of the file it came from. -/
def LexicalGrammar.ofJson (document : Json) (filename : String) :
    Except GrammarError LexicalGrammar :=
  match grammarOf document with
  | .ok g => .ok g
  | .error v => .error ⟨.invalid v, filename⟩

def LexicalGrammar.parse (source filename : String) : Except LoadFault LexicalGrammar :=
  match Json.decode source with
  | .ok document => (LexicalGrammar.ofJson document filename).mapError .rejected
  | .error ⟨.malformed fault, offset⟩ =>
    let p := Text.Position.ofOffset source.toList offset
    .error (.rejected ⟨.malformed fault (p.line + 1) (p.character + 1), filename⟩)
  | .error ⟨.longInteger e, _⟩ => .error (.longInteger e)

end FlexSynth
