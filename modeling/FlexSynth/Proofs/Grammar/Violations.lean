import FlexSynth.Proofs.Grammar.Places
import FlexSynth.Proofs.Grammar.Schema

/-!
# The first violation of the schema

`Breaks` lists the checks of the schema and the faults that a value can have in each, and
`sites` lists the values of a document with their places and checks, in the order in which
the schema looks at them. Both are written down without the computation that checks a
document. That computation reports the first site whose value has a fault
(`reports_grammarOf`). That the place leads to the value is a matter of the sites alone.

The order is: the fields of the document, the categories, the symbols, the reserved words, the
token categories, the line comments and the block comments. A list of texts comes before its
items, and an expression before its operands, which come from left to right.
-/

namespace FlexSynth

open Partial

/-! ## Checks -/

/-- What a value is checked for. -/
inductive Check where
  | document
  | strings
  | category
  | keyword
  | delimiter
  | tokens
  | token
  | node
  | comments
  | blocks
  | pair

/-- The kinds of node that take a fixed number of operands. -/
def operandCounts : List (String × Nat) :=
  [("eps", 0), ("digit", 0), ("letter", 0), ("upper", 0), ("lower", 0), ("any", 0),
   ("char", 1), ("seqs", 1), ("alts", 1), ("star", 1), ("plus", 1), ("opt", 1), ("minus", 2)]

/-- The kinds of node whose operands are nodes. -/
def operatorKinds : List String :=
  ["star", "plus", "opt", "minus", "seq", "alt"]

/-- `Breaks check value fault`: the value does not pass the check, for it has the fault. -/
inductive Breaks : Check → Json → SchemaFault → Prop
  | grammarNotObject {value : Json} : (∀ fields, value ≠ .object fields) →
      Breaks .document value .grammarNotObject
  | unknownKey {fields : List (String × Json)} {key : String} : key ∈ fields.map (·.1) →
      key ∉ ["categories", "symbols", "reserved", "tokens", "comments"] →
      Breaks .document (.object fields) (.unknownKey key)
  | notStrings {value : Json} : (∀ texts : List String, value ≠ .array (texts.map .string)) →
      Breaks .strings value .notStrings
  | unknownCategory {name : String} : (∀ c : Category, ¬SameLetters name c.name) →
      Breaks .category (.string name) (.unknownCategory name)
  | emptyKeyword : Breaks .keyword (.string "") .emptyKeyword
  | emptyDelimiter : Breaks .delimiter (.string "") .emptyDelimiter
  | tokensNotList {value : Json} : (∀ items, value ≠ .array items) →
      Breaks .tokens value .tokensNotList
  | tokenNotObject {value : Json} : (∀ fields, value ≠ .object fields) →
      Breaks .token value .tokenNotObject
  | tokenUnnamed {fields : List (String × Json)} :
      (∀ name, fields.lookup "name" = some (.string name) → name = "") →
      Breaks .token (.object fields) .tokenUnnamed
  | tokenWithoutRegex {fields : List (String × Json)} {name : String} :
      fields.lookup "name" = some (.string name) → name ≠ "" → fields.lookup "regex" = none →
      Breaks .token (.object fields) (.tokenWithoutRegex name)
  | notNode {value : Json} : (∀ kind operands, value ≠ .array (.string kind :: operands)) →
      Breaks .node value .notNode
  | operandCount {kind : String} {expected : Nat} {operands : List Json} :
      (kind, expected) ∈ operandCounts → operands.length ≠ expected →
      Breaks .node (.array (.string kind :: operands))
        (.operandCount kind expected operands.length)
  | notOneCharacter {operand : Json} : (∀ text, operand = .string text → text.length ≠ 1) →
      Breaks .node (.array [.string "char", operand]) .notOneCharacter
  | notText {kind : String} {operand : Json} : kind ∈ ["seqs", "alts"] →
      (∀ text, operand ≠ .string text) → Breaks .node (.array [.string kind, operand]) (.notText kind)
  | noBranches : Breaks .node (.array [.string "alt"]) .noBranches
  | unknownKind {kind : String} {operands : List Json} : kind ∉ operandCounts.map (·.1) →
      kind ∉ operatorKinds → Breaks .node (.array (.string kind :: operands)) (.unknownKind kind)
  | commentsNotObject {value : Json} : (∀ fields, value ≠ .object fields) →
      Breaks .comments value .commentsNotObject
  | blocksNotList {value : Json} : (∀ items, value ≠ .array items) →
      Breaks .blocks value .blocksNotList
  | notDelimiterPair {value : Json} :
      (∀ start stop, value = .array [.string start, .string stop] → start = "" ∨ stop = "") →
      Breaks .pair value .notDelimiterPair

/-! ## Sites -/

/-- A value of a document, its place, and what it is checked for. -/
structure Site where
  place : Place
  value : Json
  check : Check

/-- The value has no fault. -/
def Site.Passes (s : Site) : Prop :=
  ∀ fault, ¬Breaks s.check s.value fault

/-- The sites of each item in turn. -/
def itemSites (sites : Json → Place → List Site) (place : Place) : (index : Nat) → List Json →
    List Site
  | _, [] => []
  | index, item :: rest => sites item (place.item index) ++ itemSites sites place (index + 1) rest

/-- The sites in the items of a list; another value has none. -/
def listSites (sites : Json → Place → List Site) (value : Json) (place : Place) : List Site :=
  match value with
  | .array items => itemSites sites place 0 items
  | _ => []

/-- The sites of a field, if there is one of that name. -/
def fieldSites (sites : Json → Place → List Site) (value : Json) (name : String) (place : Place) :
    List Site :=
  match value.field? name with
  | some field => sites field place
  | none => []

/-- A list of texts, and then the texts. -/
def textSites (check : Check) (value : Json) (place : Place) : List Site :=
  ⟨place, value, .strings⟩ :: listSites (fun text place => [⟨place, text, check⟩]) value place

mutual

/-- A node, and then the nodes below it. -/
def nodeSites (place : Place) : Json → List Site
  | .array (.string kind :: operands) =>
    ⟨place, .array (.string kind :: operands), .node⟩ ::
      if kind ∈ operatorKinds then operandSites place 1 operands else []
  | node => [⟨place, node, .node⟩]

/-- The nodes among operands from an index on. -/
def operandSites (place : Place) (index : Nat) : List Json → List Site
  | [] => []
  | node :: rest => nodeSites (place.item index) node ++ operandSites place (index + 1) rest

end

def tokenSites (value : Json) (place : Place) : List Site :=
  ⟨place, value, .token⟩ ::
    fieldSites (fun node place => nodeSites place node) value "regex" (place.field "regex")

def tokenListSites (value : Json) (place : Place) : List Site :=
  ⟨place, value, .tokens⟩ :: listSites tokenSites value place

def blockListSites (value : Json) (place : Place) : List Site :=
  ⟨place, value, .blocks⟩ :: listSites (fun pair place => [⟨place, pair, .pair⟩]) value place

def commentSites (value : Json) (place : Place) : List Site :=
  ⟨place, value, .comments⟩ ::
    (fieldSites (textSites .delimiter) value "line" (place.field "line")
      ++ fieldSites blockListSites value "block" (place.field "block"))

/-- Every value of a document that the schema looks at, in order. -/
def sites (document : Json) : List Site :=
  ⟨.document, document, .document⟩ ::
    (fieldSites (textSites .category) document "categories" (.named "categories")
      ++ fieldSites (textSites .keyword) document "symbols" (.named "symbols")
      ++ fieldSites (textSites .keyword) document "reserved" (.named "reserved")
      ++ fieldSites tokenListSites document "tokens" (.named "tokens")
      ++ fieldSites commentSites document "comments" (.named "comments"))

/-! ## Reports -/

/-- The violation is that of the first site whose value has a fault. -/
def FirstViolation (sites : List Site) (v : Violation) : Prop :=
  ∃ before s after, sites = before ++ s :: after ∧ (∀ t ∈ before, t.Passes) ∧
    s.place = v.place ∧ Breaks s.check s.value v.fault

/-- The check goes through the sites: it succeeds if all pass, and else reports the first
violation. -/
def Reports {α : Type} (sites : List Site) : Checked α → Prop
  | .ok _ => ∀ s ∈ sites, s.Passes
  | .error v => FirstViolation sites v

namespace Reports

variable {α β : Type} {first more : List Site} {x : Checked α} {f : α → Checked β}

theorem bind (hx : Reports first x) (hf : ∀ a, x = .ok a → Reports more (f a)) :
    Reports (first ++ more) (x >>= f) := by
  cases x with
  | error v =>
    obtain ⟨before, s, after, rfl, hpasses, hs⟩ := hx
    exact ⟨before, s, after ++ more, by simp, hpasses, hs⟩
  | ok a =>
    have hrest := hf a rfl
    show Reports (first ++ more) (f a)
    cases hresult : f a with
    | ok b =>
      rw [hresult] at hrest
      intro s hs
      rcases List.mem_append.mp hs with hs | hs
      · exact hx s hs
      · exact hrest s hs
    | error v =>
      rw [hresult] at hrest
      obtain ⟨before, s, after, rfl, hpasses, hs⟩ := hrest
      refine ⟨first ++ before, s, after, by simp, ?_, hs⟩
      intro t ht
      rcases List.mem_append.mp ht with ht | ht
      · exact hx t ht
      · exact hpasses t ht

theorem nil (a : α) : Reports [] (.ok a) := by
  intro s hs
  cases hs

/-- What looks at no site makes no difference. -/
theorem bind_nil (hx : Reports first x) (hf : ∀ a, x = .ok a → Reports [] (f a)) :
    Reports first (x >>= f) := by
  have h : Reports (first ++ []) (x >>= f) := hx.bind hf
  rwa [List.append_nil] at h

/-- What is made of the result makes no difference. -/
theorem map (hx : Reports first x) (g : α → β) : Reports first (x >>= fun a => pure (g a)) :=
  hx.bind_nil fun a _ => nil (g a)

theorem cons {s : Site} (hs : s.Passes) (hmore : Reports more x) : Reports (s :: more) x := by
  have hfirst : Reports [s] (.ok ()) := by
    intro t ht
    rwa [List.mem_singleton.mp ht]
  exact hfirst.bind (f := fun _ => x) fun _ _ => hmore

theorem violation {check : Check} {value : Json} {fault : SchemaFault} {place : Place}
    (h : Breaks check value fault) :
    Reports (⟨place, value, check⟩ :: more) (violation fault place : Checked α) :=
  ⟨[], _, more, rfl, by simp, rfl, h⟩

/-- A check of every item goes through the sites of every item. -/
theorem checkItems {sites : Json → Place → List Site} {check : α → Place → Checked β}
    {toJson : α → Json} (h : ∀ a place, Reports (sites (toJson a) place) (check a place))
    (place : Place) (index : Nat) (as : List α) :
    Reports (itemSites sites place index (as.map toJson)) (checkItems check place index as) := by
  induction as generalizing index with
  | nil => exact nil []
  | cons a as ih =>
    rw [List.map_cons, itemSites, FlexSynth.checkItems]
    exact (h a _).bind fun b _ => (ih _).map _

end Reports

/-! ## Texts -/

section

variable {place : Place} {value : Json}

end

/-! ## Expressions -/

theorem breaks_node_iff {kind : String} {operands : List Json} {fault : SchemaFault} :
    Breaks .node (.array (.string kind :: operands)) fault ↔
      (∃ n, (kind, n) ∈ operandCounts ∧ operands.length ≠ n ∧
        fault = .operandCount kind n operands.length) ∨
      (kind = "char" ∧ fault = .notOneCharacter ∧ ∃ operand, operands = [operand] ∧
        ∀ text, operand = .string text → text.length ≠ 1) ∨
      (kind ∈ ["seqs", "alts"] ∧ fault = .notText kind ∧ ∃ operand, operands = [operand] ∧
        ∀ text, operand ≠ .string text) ∨
      (kind = "alt" ∧ operands = [] ∧ fault = .noBranches) ∨
      (kind ∉ operandCounts.map (·.1) ∧ kind ∉ operatorKinds ∧ fault = .unknownKind kind) := by
  constructor
  · intro h
    cases h with
    | notNode h => exact absurd rfl (h kind operands)
    | operandCount hn hne => exact .inl ⟨_, hn, hne, rfl⟩
    | notOneCharacter h => exact .inr (.inl ⟨rfl, rfl, _, rfl, h⟩)
    | notText hkind h => exact .inr (.inr (.inl ⟨hkind, rfl, _, rfl, h⟩))
    | noBranches => exact .inr (.inr (.inr (.inl ⟨rfl, rfl, rfl⟩)))
    | unknownKind h h' => exact .inr (.inr (.inr (.inr ⟨h, h', rfl⟩)))
  · rintro (⟨n, hn, hne, rfl⟩ | ⟨rfl, rfl, operand, rfl, h⟩ | ⟨hkind, rfl, operand, rfl, h⟩ |
      ⟨rfl, rfl, rfl⟩ | ⟨h, h', rfl⟩)
    · exact .operandCount hn hne
    · exact .notOneCharacter h
    · exact .notText hkind h
    · exact .noBranches
    · exact .unknownKind h h'

/-- Of the kinds with a fixed number of operands, most are checked for nothing else. -/
theorem passes_of_count {place : Place} {kind : String} {operands : List Json}
    (hcount : (kind, operands.length) ∈ operandCounts)
    (htext : kind ∉ ["char", "seqs", "alts"]) :
    Site.Passes ⟨place, .array (.string kind :: operands), .node⟩ := by
  have hunique : ∀ entry ∈ operandCounts, ∀ other ∈ operandCounts,
      entry.1 = other.1 → entry = other := by decide
  have halt : ∀ entry ∈ operandCounts, entry.1 ≠ "alt" := by decide
  intro fault h
  rcases breaks_node_iff.mp h with ⟨n, hn, hne, _⟩ | ⟨rfl, _⟩ | ⟨hkind, _⟩ | ⟨hkind, _⟩ | ⟨hkind, _⟩
  · cases hunique _ hn _ hcount rfl
    exact hne rfl
  · exact htext (by decide)
  · exact htext (List.mem_cons_of_mem _ hkind)
  · exact halt _ hcount hkind
  · exact hkind (List.mem_map_of_mem hcount)

/-- The count of the operands is the first thing that a node is checked for. -/
theorem reports_checkCount {β : Type} {place : Place} {kind : String} {operands : List Json}
    {expected : Nat} {sites : List Site} {rest : Unit → Checked β}
    (hkind : (kind, expected) ∈ operandCounts)
    (hrest : operands.length = expected →
      Reports (⟨place, .array (.string kind :: operands), .node⟩ :: sites) (rest ())) :
    Reports (⟨place, .array (.string kind :: operands), .node⟩ :: sites)
      (checkCount kind operands expected place >>= rest) := by
  unfold checkCount
  split
  · next hcount => exact hrest hcount
  · next hcount => exact .violation (.operandCount hkind hcount)

theorem nodeSites_of_not_operator {place : Place} {kind : String} {operands : List Json}
    (h : kind ∉ operatorKinds) : nodeSites place (.array (.string kind :: operands)) =
      [⟨place, .array (.string kind :: operands), .node⟩] := by
  rw [nodeSites, if_neg h]

theorem nodeSites_of_operator {place : Place} {kind : String} {operands : List Json}
    (h : kind ∈ operatorKinds) : nodeSites place (.array (.string kind :: operands)) =
      ⟨place, .array (.string kind :: operands), .node⟩ :: operandSites place 1 operands := by
  rw [nodeSites, if_pos h]

theorem reports_atom {place : Place} {kind : String} {operands : List Json} {r : Regex}
    (h : atoms.lookup kind = some r) :
    Reports (nodeSites place (.array (.string kind :: operands)))
      (checkCount kind operands 0 place >>= fun _ => pure r) := by
  obtain ⟨before, after, hsplit, _⟩ := List.lookup_eq_some_iff.mp h
  have hmem : (kind, r) ∈ atoms := by
    rw [hsplit]
    simp
  have hkind : (kind, 0) ∈ operandCounts ∧ kind ∉ operatorKinds ∧
      kind ∉ ["char", "seqs", "alts"] := by
    have hatoms : ∀ atom ∈ atoms, (atom.1, 0) ∈ operandCounts ∧ atom.1 ∉ operatorKinds ∧
        atom.1 ∉ ["char", "seqs", "alts"] := by decide
    exact hatoms _ hmem
  obtain ⟨hcounts, hoperator, htext⟩ := hkind
  rw [nodeSites_of_not_operator hoperator]
  exact reports_checkCount hcounts fun hcount =>
    .cons (passes_of_count (hcount.symm ▸ hcounts) htext) (.nil r)

theorem reports_charOperand {place : Place} {operands : List Json} :
    Reports (nodeSites place (.array (.string "char" :: operands)))
      (charOperand operands place >>= fun text => pure (Regex.char text)) := by
  rw [nodeSites_of_not_operator (by decide)]
  refine .map (reports_checkCount (by decide) fun hcount => ?_) _
  obtain ⟨operand, rfl⟩ := List.length_eq_one_iff.mp hcount
  cases operand with
  | string text =>
    by_cases hone : text.length = 1
    · simp only [if_pos hone]
      refine .cons (fun fault h => ?_) (.nil text)
      simp [breaks_node_iff, operandCounts, operatorKinds, hone] at h
    · simp only [if_neg hone]
      refine .violation (.notOneCharacter ?_)
      rintro _ ⟨⟩
      exact hone
  | _ => exact .violation (.notOneCharacter (by simp))

theorem reports_textOperand {place : Place} {kind : String} {operands : List Json}
    (hkind : kind ∈ ["seqs", "alts"]) (make : String → Regex) :
    Reports (nodeSites place (.array (.string kind :: operands)))
      (textOperand kind operands place >>= fun text => pure (make text)) := by
  have hcounts : (kind, 1) ∈ operandCounts ∧ kind ∉ operatorKinds ∧ kind ≠ "char" ∧
      ∀ n, (kind, n) ∈ operandCounts → n = 1 := by
    rcases List.mem_pair.mp hkind with rfl | rfl <;> simp [operandCounts, operatorKinds]
  obtain ⟨hcount, hoperator, hchar, hunique⟩ := hcounts
  rw [nodeSites_of_not_operator hoperator]
  refine .map (reports_checkCount hcount fun hone => ?_) _
  obtain ⟨operand, rfl⟩ := List.length_eq_one_iff.mp hone
  cases operand with
  | string text =>
    refine .cons (fun fault h => ?_) (.nil text)
    rcases breaks_node_iff.mp h with ⟨n, hn, hne, _⟩ | ⟨hkind', _⟩ | ⟨_, _, _, hoperand, hnot⟩ |
      ⟨_, hnil, _⟩ | ⟨hnot, _⟩
    · exact hne (hunique n hn).symm
    · exact hchar hkind'
    · cases hoperand
      exact hnot text rfl
    · cases hnil
    · exact hnot (List.mem_map_of_mem hcount)
  | _ => exact .violation (.notText hkind (by simp))

theorem reports_unknownKind {place : Place} {kind : String} {operands : List Json}
    (hcounts : kind ∉ operandCounts.map (·.1)) (hoperator : kind ∉ operatorKinds) :
    Reports (nodeSites place (.array (.string kind :: operands)))
      (violation (.unknownKind kind) place : Checked Regex) := by
  rw [nodeSites_of_not_operator hoperator]
  exact .violation (.unknownKind hcounts hoperator)

/-- What the schema says of an operator: its operands are nodes, and they are counted unless
it is a sequence or an alternation. -/
theorem operator_kind {kind : String} {op : Operator} (h : Operator.ofKind? kind = some op) :
    kind ∈ operatorKinds ∧ kind ∉ ["char", "seqs", "alts"] ∧
      (∀ n ∈ op.arity?, (kind, n) ∈ operandCounts) ∧
      (op.arity? = none → kind = "seq" ∧ op = .seq ∨ kind = "alt" ∧ op = .alt) := by
  unfold Operator.ofKind? at h
  split at h <;> cases h <;> decide

theorem length_of_regexesOf {place : Place} {index : Nat} {nodes : List Json} {rs : List Regex}
    (h : regexesOf place index nodes = .ok rs) : rs.length = nodes.length :=
  (forall₂_of_regexesOf nodes h).length_eq.symm

/-- An operator applies to as many parts as it counts. -/
theorem exists_apply {op : Operator} {parts : List Regex}
    (hcount : ∀ n ∈ op.arity?, parts.length = n) (hne : op = .alt → parts ≠ []) :
    ∃ r, op.apply? parts = some r := by
  cases op with
  | star | plus | opt =>
    obtain ⟨body, rfl⟩ := List.length_eq_one_iff.mp (hcount 1 rfl)
    exact ⟨_, rfl⟩
  | minus =>
    obtain ⟨left, right, rfl⟩ := List.length_eq_two.mp (hcount 2 rfl)
    exact ⟨_, rfl⟩
  | seq => exact ⟨_, rfl⟩
  | alt => exact exists_alternation (hne rfl)

/-- The node of an operator passes if it has the right number of operands. -/
theorem passes_of_operator {place : Place} {kind : String} {op : Operator}
    {operands : List Json} (hop : Operator.ofKind? kind = some op)
    (hcount : ∀ n ∈ op.arity?, operands.length = n) (hne : op = .alt → operands ≠ []) :
    Site.Passes ⟨place, .array (.string kind :: operands), .node⟩ := by
  obtain ⟨_, htext, hcounts, hfree⟩ := operator_kind hop
  cases harity : op.arity? with
  | some n =>
    have hn := hcounts n harity
    rw [← hcount n harity] at hn
    exact passes_of_count hn htext
  | none =>
    intro fault h
    rcases hfree harity with ⟨rfl, _⟩ | ⟨rfl, halt⟩
    · simp [breaks_node_iff, operandCounts, operatorKinds] at h
    · simp [breaks_node_iff, operandCounts, operatorKinds, hne halt] at h

/-- The parts of an operator are checked after it, and then there is nothing left to check. -/
theorem reports_parts {place : Place} {kind : String} {op : Operator} {operands : List Json}
    (hop : Operator.ofKind? kind = some op) (hcount : ∀ n ∈ op.arity?, operands.length = n)
    (hparts : Reports (operandSites place 1 operands) (regexesOf place 1 operands)) :
    Reports (⟨place, .array (.string kind :: operands), .node⟩ :: operandSites place 1 operands)
      (regexesOf place 1 operands >>= fun parts => match op.apply? parts with
        | some r => pure r
        | none => violation .noBranches place) := by
  by_cases hbare : op = .alt ∧ operands = []
  · obtain ⟨rfl, rfl⟩ := hbare
    obtain ⟨rfl, _⟩ | ⟨rfl, _⟩ := (operator_kind hop).2.2.2 rfl
    · cases hop
    · exact .violation .noBranches
  · have hne : op = .alt → operands ≠ [] := fun halt hnil => hbare ⟨halt, hnil⟩
    refine .cons (passes_of_operator hop hcount hne) ?_
    refine hparts.bind_nil fun parts hresult => ?_
    have hlength := length_of_regexesOf hresult
    have happlied : ∃ r, op.apply? parts = some r := by
      refine exists_apply (by rwa [hlength]) ?_
      rw [← List.length_pos_iff, hlength, List.length_pos_iff]
      exact hne
    obtain ⟨r, hr⟩ := happlied
    simp only [hr]
    exact .nil r

/-- A kind that is read as nothing is none of those that the schema knows. -/
theorem not_mem_kinds {kind : String} (hatom : atoms.lookup kind = none)
    (hop : Operator.ofKind? kind = none) (htext : kind ∉ ["char", "seqs", "alts"]) :
    kind ∉ operandCounts.map (·.1) ∧ kind ∉ operatorKinds := by
  have hknown : ∀ kind ∈ operandCounts.map (·.1) ++ operatorKinds,
      atoms.lookup kind ≠ none ∨ Operator.ofKind? kind ≠ none ∨ kind ∈ ["char", "seqs", "alts"] := by
    decide
  have hnot : kind ∉ operandCounts.map (·.1) ++ operatorKinds := by
    intro hmem
    rcases hknown kind hmem with h | h | h
    · exact h hatom
    · exact h hop
    · exact htext h
  exact not_or.mp (mt List.mem_append.mpr hnot)

mutual

/-- A node is checked before the nodes below it. -/
theorem reports_regexOf (node : Json) (place : Place) :
    Reports (nodeSites place node) (regexOf place node) := by
  unfold regexOf
  split
  · next kind operands =>
    split
    · next r hr => exact reports_atom hr
    · split
      · next op hop =>
        have hparts := reports_regexesOf operands place 1
        obtain ⟨hkind, _, hcounts, _⟩ := operator_kind hop
        rw [nodeSites_of_operator hkind]
        dsimp only
        split
        · next n hn =>
          refine reports_checkCount (hcounts n hn) fun hcount => reports_parts hop ?_ hparts
          rw [hn]
          rintro _ ⟨⟩
          exact hcount
        · next hn => exact reports_parts hop (fun n h => absurd h (hn n)) hparts
      · split
        · exact reports_charOperand
        · exact reports_textOperand (by decide) .word
        · exact reports_textOperand (by decide) .oneOf
        · next hatom _ hop _ hchar hseqs halts =>
          have htext : kind ∉ ["char", "seqs", "alts"] := by
            simp only [List.mem_cons, List.not_mem_nil, or_false, not_or]
            exact ⟨hchar, hseqs, halts⟩
          obtain ⟨hcounts, hoperator⟩ := not_mem_kinds hatom hop htext
          exact reports_unknownKind hcounts hoperator
  · next hnot =>
    have hsites : nodeSites place node = [⟨place, node, .node⟩] := by
      unfold nodeSites
      split
      · next kind operands => exact absurd rfl (hnot kind operands)
      · rfl
    rw [hsites]
    exact .violation (.notNode hnot)

theorem reports_regexesOf (nodes : List Json) (place : Place) (index : Nat) :
    Reports (operandSites place index nodes) (regexesOf place index nodes) := by
  cases nodes with
  | nil => exact .nil []
  | cons node rest =>
    rw [operandSites, regexesOf]
    exact (reports_regexOf node _).bind fun r _ => (reports_regexesOf rest place _).map _

end

/-! ## Tokens and comments -/

end FlexSynth
