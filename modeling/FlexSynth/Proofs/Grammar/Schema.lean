import FlexSynth.Grammar.Schema
import FlexSynth.Proofs.Partial

/-!
# The documents that describe a grammar

`DescribesGrammar` is the schema of a grammar file as its documentation has it: what a
document must look like, and what the grammar then holds, field by field and in the order of
the document. A document is loaded just when it describes a grammar, and then as that grammar
(`loaded_iff_described`); every other document is rejected with a violation of the schema,
in the name of the file.

Each check of the schema has an `iff` lemma here that says what passes it. None of them
mentions places: a check passes or fails wherever the value stands.
-/

namespace FlexSynth

open Partial

/-! ## The schema -/

/-- Two characters that differ at most in the case of an ASCII letter. -/
def SameLetter (a b : Char) : Prop :=
  a = b ∨ a.isUpper = true ∧ b.toNat = a.toNat + 32 ∨ b.isUpper = true ∧ a.toNat = b.toNat + 32

/-- Two texts that differ at most in the case of ASCII letters. -/
def SameLetters (a b : String) : Prop :=
  List.Forall₂ SameLetter a.toList b.toList

/-- `DescribesRegex node r`: the node is well-formed and stands for the expression. -/
inductive DescribesRegex : Json → Regex → Prop
  | eps : DescribesRegex (.array [.string "eps"]) .eps
  | digit : DescribesRegex (.array [.string "digit"]) (.named .digit)
  | letter : DescribesRegex (.array [.string "letter"]) (.named .letter)
  | upper : DescribesRegex (.array [.string "upper"]) (.named .upper)
  | lower : DescribesRegex (.array [.string "lower"]) (.named .lower)
  | any : DescribesRegex (.array [.string "any"]) .any
  | char {text : String} : text.length = 1 →
      DescribesRegex (.array [.string "char", .string text]) (.char text)
  | word {text : String} : DescribesRegex (.array [.string "seqs", .string text]) (.word text)
  | oneOf {text : String} : DescribesRegex (.array [.string "alts", .string text]) (.oneOf text)
  | star {node : Json} {r : Regex} : DescribesRegex node r →
      DescribesRegex (.array [.string "star", node]) (.star r)
  | plus {node : Json} {r : Regex} : DescribesRegex node r →
      DescribesRegex (.array [.string "plus", node]) (.plus r)
  | opt {node : Json} {r : Regex} : DescribesRegex node r →
      DescribesRegex (.array [.string "opt", node]) (.opt r)
  | minus {left right : Json} {l r : Regex} : DescribesRegex left l → DescribesRegex right r →
      DescribesRegex (.array [.string "minus", left, right]) (.minus l r)
  /-- A sequence may have no parts. -/
  | seq {nodes : List Json} {parts : List Regex} : List.Forall₂ DescribesRegex nodes parts →
      DescribesRegex (.array (.string "seq" :: nodes)) (Regex.sequence parts)
  /-- An alternation must have a part. -/
  | alt {nodes : List Json} {parts : List Regex} {r : Regex} :
      List.Forall₂ DescribesRegex nodes parts → Regex.alternation? parts = some r →
      DescribesRegex (.array (.string "alt" :: nodes)) r

/-- The field holds the items, or there is no such field and there are no items. -/
def ListField (fields : List (String × Json)) (name : String) (items : List Json) : Prop :=
  fields.lookup name = some (.array items) ∨ fields.lookup name = none ∧ items = []

/-- The field holds the texts, of which none is empty. -/
structure TextsField (fields : List (String × Json)) (name : String) (texts : List String) :
    Prop where
  field : ListField fields name (texts.map .string)
  ne_empty : ∀ text ∈ texts, text ≠ ""

/-- The value is the name of the category, in any case. -/
def DescribesCategory (value : Json) (c : Category) : Prop :=
  ∃ name, value = .string name ∧ SameLetters name c.name

/-- The value is an object with a name and an expression, and whatever else. -/
def DescribesToken (value : Json) (pragma : TokenPragma) : Prop :=
  ∃ fields node, value = .object fields ∧ fields.lookup "name" = some (.string pragma.name) ∧
    pragma.name ≠ "" ∧ fields.lookup "regex" = some node ∧ DescribesRegex node pragma.regex

/-- The value is a pair of two texts that are not empty. -/
def DescribesBlock (value : Json) (form : BlockForm) : Prop :=
  value = .array [.string form.start, .string form.stop] ∧ form.start ≠ "" ∧ form.stop ≠ ""

/-- The fields hold the comment forms, and whatever else. -/
def DescribesComments (fields : List (String × Json)) (forms : CommentForms) : Prop :=
  TextsField fields "line" forms.line ∧
    ∃ items, ListField fields "block" items ∧ List.Forall₂ DescribesBlock items forms.block

/-- The fields of a document keep the schema and hold the grammar. -/
structure DescribesFields (fields : List (String × Json)) (g : LexicalGrammar) : Prop where
  known : ∀ key ∈ fields.map (·.1),
    key ∈ ["categories", "symbols", "reserved", "tokens", "comments"]
  categories : ∃ items, ListField fields "categories" items ∧
    List.Forall₂ DescribesCategory items g.categories
  symbols : TextsField fields "symbols" g.symbols
  reserved : TextsField fields "reserved" g.reserved
  tokens : ∃ items, ListField fields "tokens" items ∧ List.Forall₂ DescribesToken items g.tokens
  comments : ∃ inner, (fields.lookup "comments" = some (.object inner) ∨
    fields.lookup "comments" = none ∧ inner = []) ∧ DescribesComments inner g.comments

/-- `DescribesGrammar document g`: the document keeps the schema and describes the grammar. -/
def DescribesGrammar (document : Json) (g : LexicalGrammar) : Prop :=
  ∃ fields, document = .object fields ∧ DescribesFields fields g

/-! ## Lists -/

theorem checkItems_eq_ok_iff {α β : Type} {check : α → Place → Checked β} {R : α → β → Prop}
    (hcheck : ∀ a place b, check a place = .ok b ↔ R a b) {place : Place} {index : Nat}
    {as : List α} {bs : List β} :
    checkItems check place index as = .ok bs ↔ List.Forall₂ R as bs := by
  induction as generalizing index bs with
  | nil =>
    rw [checkItems, List.forall₂_nil_left_iff]
    exact ⟨fun h => (Except.ok.inj h).symm, fun h => by rw [h]⟩
  | cons a as ih =>
    rw [checkItems, bind_eq_ok_iff, List.forall₂_cons_left_iff]
    constructor
    · rintro ⟨b, hb, h⟩
      obtain ⟨rest, hrest, h⟩ := bind_eq_ok_iff.mp h
      cases h
      exact ⟨b, rest, (hcheck a _ b).mp hb, ih.mp hrest, rfl⟩
    · rintro ⟨b, rest, hb, hrest, rfl⟩
      exact ⟨b, (hcheck a _ b).mpr hb, bind_eq_ok_iff.mpr ⟨rest, ih.mpr hrest, rfl⟩⟩

theorem mapM_text?_eq_some_iff {items : List Json} {texts : List String} :
    items.mapM Json.text? = some texts ↔ items = texts.map .string := by
  rw [mapM_eq_some_iff, ← List.forall₂_eq_eq_eq, List.forall₂_map_right_iff]
  have htext (value : Json) (text : String) : value.text? = some text ↔ value = .string text := by
    cases value <;> simp [Json.text?]
  simp only [htext]

theorem stringsOf_eq_ok_iff {place : Place} {value : Json} {texts : List String} :
    stringsOf place value = .ok texts ↔ value = .array (texts.map .string) := by
  cases value with
  | array items =>
    rw [stringsOf, Json.array.injEq, ← mapM_text?_eq_some_iff]
    cases items.mapM Json.text? <;> simp [violation]
  | _ => simp [stringsOf, violation]

theorem nonEmptyStrings_eq_ok_iff {fault : SchemaFault} {place : Place} {value : Json}
    {texts : List String} : nonEmptyStrings fault place value = .ok texts ↔
      value = .array (texts.map .string) ∧ ∀ text ∈ texts, text ≠ "" := by
  have hcheck (text : String) (place : Place) (result : String) :
      (if text.isEmpty then violation fault place else .ok text) = .ok result ↔
        text = result ∧ text ≠ "" := by
    by_cases htext : text = "" <;> simp [htext, violation]
  have hsame (texts results : List String) :
      List.Forall₂ (fun text result => text = result ∧ text ≠ "") texts results ↔
        texts = results ∧ ∀ text ∈ texts, text ≠ "" := by
    induction texts generalizing results with
    | nil => simp [eq_comm]
    | cons text rest ih =>
      cases results <;> simp [ih, and_assoc, and_left_comm]
  unfold nonEmptyStrings
  rw [bind_eq_ok_iff]
  simp only [stringsOf_eq_ok_iff, checkItems_eq_ok_iff hcheck, hsame]
  constructor
  · rintro ⟨_, hvalue, rfl, hne⟩
    exact ⟨hvalue, hne⟩
  · rintro ⟨hvalue, hne⟩
    exact ⟨texts, hvalue, rfl, hne⟩

/-- A field that is missing counts as an empty list. -/
theorem fieldOr_eq_array_iff {fields : List (String × Json)} {name : String}
    {items : List Json} :
    fieldOr fields name (.array []) = .array items ↔ ListField fields name items := by
  unfold fieldOr ListField
  cases fields.lookup name <;> simp [eq_comm]

theorem ListField.unique {fields : List (String × Json)} {name : String} {items items' : List Json}
    (h : ListField fields name items) (h' : ListField fields name items') : items = items' := by
  rw [← fieldOr_eq_array_iff] at h h'
  exact Json.array.inj (h.symm.trans h')

theorem textsField_iff {fields : List (String × Json)} {name : String} {fault : SchemaFault}
    {place : Place} {texts : List String} :
    nonEmptyStrings fault place (fieldOr fields name (.array [])) = .ok texts ↔
      TextsField fields name texts := by
  rw [nonEmptyStrings_eq_ok_iff, fieldOr_eq_array_iff]
  exact ⟨fun ⟨hfield, hne⟩ => ⟨hfield, hne⟩, fun h => ⟨h.field, h.ne_empty⟩⟩

/-! ## Categories -/

theorem toNat_toLower (c : Char) :
    c.toLower.toNat = if 65 ≤ c.toNat ∧ c.toNat ≤ 90 then c.toNat + 32 else c.toNat := by
  have hupper : (c.val ≥ 'A'.val ∧ c.val ≤ 'Z'.val) ↔ (65 ≤ c.toNat ∧ c.toNat ≤ 90) := Iff.rfl
  unfold Char.toLower
  split
  · next h =>
    rw [if_pos (hupper.mp h)]
    have hbound : c.val.toNat ≤ 90 := (hupper.mp h).2
    show (c.val + 32).toNat = c.val.toNat + 32
    rw [UInt32.toNat_add]
    show (c.val.toNat + 32) % 2 ^ 32 = _
    omega
  · next h => rw [if_neg (mt hupper.mpr h)]

theorem toLower_eq_toLower_iff {a b : Char} : a.toLower = b.toLower ↔ SameLetter a b := by
  have hupper (c : Char) : c.isUpper = true ↔ 65 ≤ c.toNat ∧ c.toNat ≤ 90 := decide_eq_true_iff
  unfold SameLetter
  rw [← Char.toNat_inj, toNat_toLower, toNat_toLower, ← Char.toNat_inj]
  simp only [hupper]
  split <;> split <;> omega

theorem asciiLower_eq_asciiLower_iff {a b : String} :
    asciiLower a = asciiLower b ↔ SameLetters a b := by
  unfold asciiLower SameLetters
  rw [← List.forall₂_eq_eq_eq, List.forall₂_map_left_iff, List.forall₂_map_right_iff]
  simp only [toLower_eq_toLower_iff]

theorem ofName?_eq_some_iff {name : String} {c : Category} :
    Category.ofName? name = some c ↔ SameLetters name c.name := by
  rw [← asciiLower_eq_asciiLower_iff]
  unfold Category.ofName?
  constructor
  · intro h
    have hname := List.find?_some h
    exact (of_decide_eq_true hname).symm
  · intro h
    rw [h]
    cases c <;> decide

theorem categoryOf_eq_ok_iff {name : String} {place : Place} {c : Category} :
    categoryOf name place = .ok c ↔ SameLetters name c.name := by
  rw [← ofName?_eq_some_iff, categoryOf]
  cases Category.ofName? name <;> simp [violation]

theorem categories_eq_ok_iff {place : Place} {names : List String} {categories : List Category} :
    checkItems categoryOf place 0 names = .ok categories ↔
      List.Forall₂ DescribesCategory (names.map .string) categories := by
  rw [List.forall₂_map_left_iff]
  refine checkItems_eq_ok_iff fun name place c => ?_
  rw [categoryOf_eq_ok_iff]
  simp [DescribesCategory]

theorem DescribesCategory.unique {value : Json} {c c' : Category} (h : DescribesCategory value c)
    (h' : DescribesCategory value c') : c = c' := by
  obtain ⟨name, rfl, hname⟩ := h
  obtain ⟨_, ⟨⟩, hname'⟩ := h'
  exact Option.some.inj ((ofName?_eq_some_iff.mpr hname).symm.trans (ofName?_eq_some_iff.mpr hname'))

theorem exists_names {items : List Json} {categories : List Category}
    (h : List.Forall₂ DescribesCategory items categories) :
    ∃ names : List String, items = names.map .string := by
  induction h with
  | nil => exact ⟨[], rfl⟩
  | cons hitem _ ih =>
    obtain ⟨name, rfl, _⟩ := hitem
    obtain ⟨names, rfl⟩ := ih
    exact ⟨name :: names, rfl⟩

/-! ## Expressions -/

theorem describesRegex_of_atom {kind : String} {r : Regex} (h : atoms.lookup kind = some r) :
    DescribesRegex (.array [.string kind]) r := by
  obtain ⟨before, after, hsplit, _⟩ := List.lookup_eq_some_iff.mp h
  have hmem : (kind, r) ∈ atoms := by
    rw [hsplit]
    simp
  simp only [atoms, List.mem_cons, Prod.mk.injEq, List.not_mem_nil, or_false] at hmem
  rcases hmem with ⟨rfl, rfl⟩ | ⟨rfl, rfl⟩ | ⟨rfl, rfl⟩ | ⟨rfl, rfl⟩ | ⟨rfl, rfl⟩ | ⟨rfl, rfl⟩
  · exact .eps
  · exact .digit
  · exact .letter
  · exact .upper
  · exact .lower
  · exact .any

theorem exists_alternation {parts : List Regex} (h : parts ≠ []) :
    ∃ r, Regex.alternation? parts = some r := by
  induction parts with
  | nil => exact absurd rfl h
  | cons first rest ih =>
    cases rest with
    | nil => exact ⟨first, rfl⟩
    | cons next more =>
      obtain ⟨others, hothers⟩ := ih (List.cons_ne_nil _ _)
      exact ⟨.alt first others, Option.map_eq_some_iff.mpr ⟨others, hothers, rfl⟩⟩

theorem describesRegex_of_operator {kind : String} {op : Operator} {nodes : List Json}
    {parts : List Regex} {r : Regex} (hop : Operator.ofKind? kind = some op)
    (hparts : List.Forall₂ DescribesRegex nodes parts) (hr : op.apply? parts = some r) :
    DescribesRegex (.array (.string kind :: nodes)) r := by
  unfold Operator.ofKind? at hop
  split at hop <;> cases hop
  · obtain _ | ⟨hbody, _ | _⟩ := hparts <;> cases hr
    exact .star hbody
  · obtain _ | ⟨hbody, _ | _⟩ := hparts <;> cases hr
    exact .plus hbody
  · obtain _ | ⟨hbody, _ | _⟩ := hparts <;> cases hr
    exact .opt hbody
  · cases hr
    exact .seq hparts
  · exact .alt hparts hr
  · obtain _ | ⟨hleft, _ | ⟨hright, _ | _⟩⟩ := hparts <;> cases hr
    exact .minus hleft hright

theorem checkCount_eq_ok_iff {kind : String} {operands : List Json} {expected : Nat}
    {place : Place} {u : Unit} :
    checkCount kind operands expected place = .ok u ↔ operands.length = expected := by
  unfold checkCount
  split <;> simp [violation, *]

theorem textOperand_eq_ok_iff {kind : String} {operands : List Json} {place : Place}
    {text : String} :
    textOperand kind operands place = .ok text ↔ operands = [.string text] := by
  unfold textOperand
  rw [bind_eq_ok_iff]
  simp only [checkCount_eq_ok_iff]
  constructor
  · rintro ⟨_, _, h⟩
    split at h <;> cases h
    rfl
  · rintro rfl
    exact ⟨(), rfl, rfl⟩

theorem charOperand_eq_ok_iff {operands : List Json} {place : Place} {text : String} :
    charOperand operands place = .ok text ↔ operands = [.string text] ∧ text.length = 1 := by
  unfold charOperand
  rw [bind_eq_ok_iff]
  simp only [checkCount_eq_ok_iff]
  constructor
  · rintro ⟨_, _, h⟩
    split at h
    · split at h <;> cases h
      next hone => exact ⟨rfl, hone⟩
    · cases h
  · rintro ⟨rfl, hone⟩
    exact ⟨(), rfl, if_pos hone⟩

mutual

/-- An expression that is read from a node is described by it. -/
theorem describesRegex_of_regexOf {place : Place} (node : Json) {r : Regex}
    (h : regexOf place node = .ok r) : DescribesRegex node r := by
  unfold regexOf at h
  split at h
  · next kind operands =>
    split at h
    · next atom hatom =>
      obtain ⟨_, hcount, h⟩ := bind_eq_ok_iff.mp h
      cases h
      obtain rfl := List.length_eq_zero_iff.mp (checkCount_eq_ok_iff.mp hcount)
      exact describesRegex_of_atom hatom
    · split at h
      · next op hop =>
        -- Whether operands are counted first or not, an operator applies to checked parts.
        have hbuild : (regexesOf place 1 operands >>= fun parts => match op.apply? parts with
            | some r => pure r
            | none => violation .noBranches place) = .ok r := by
          dsimp only at h
          split at h
          · obtain ⟨_, _, h⟩ := bind_eq_ok_iff.mp h
            exact h
          · exact h
        obtain ⟨parts, hparts, hbuild⟩ := bind_eq_ok_iff.mp hbuild
        split at hbuild
        · next hr =>
          cases hbuild
          exact describesRegex_of_operator hop (forall₂_of_regexesOf operands hparts) hr
        · cases hbuild
      · split at h
        · obtain ⟨text, htext, h⟩ := bind_eq_ok_iff.mp h
          cases h
          obtain ⟨rfl, hone⟩ := charOperand_eq_ok_iff.mp htext
          exact .char hone
        · obtain ⟨text, htext, h⟩ := bind_eq_ok_iff.mp h
          cases h
          obtain rfl := textOperand_eq_ok_iff.mp htext
          exact .word
        · obtain ⟨text, htext, h⟩ := bind_eq_ok_iff.mp h
          cases h
          obtain rfl := textOperand_eq_ok_iff.mp htext
          exact .oneOf
        · cases h
  · cases h

theorem forall₂_of_regexesOf {place : Place} {index : Nat} (nodes : List Json)
    {rs : List Regex} (h : regexesOf place index nodes = .ok rs) :
    List.Forall₂ DescribesRegex nodes rs := by
  cases nodes with
  | nil =>
    cases h
    exact .nil
  | cons node rest =>
    rw [regexesOf] at h
    obtain ⟨first, hfirst, h⟩ := bind_eq_ok_iff.mp h
    obtain ⟨others, hothers, h⟩ := bind_eq_ok_iff.mp h
    cases h
    exact .cons (describesRegex_of_regexOf node hfirst) (forall₂_of_regexesOf rest hothers)

end

/-- An operator that takes the number of its operands reads them and applies to what it has
read. -/
theorem regexOf_operator {kind : String} {op : Operator} {place : Place} {operands : List Json}
    {parts : List Regex} {r : Regex} (hop : Operator.ofKind? kind = some op)
    (hcount : ∀ n ∈ op.arity?, operands.length = n)
    (hparts : regexesOf place 1 operands = .ok parts) (hr : op.apply? parts = some r) :
    regexOf place (.array (.string kind :: operands)) = .ok r := by
  have hatom : atoms.lookup kind = none := by
    unfold Operator.ofKind? at hop
    split at hop <;> first | rfl | cases hop
  unfold regexOf
  simp only [hatom, hop, hparts]
  cases harity : op.arity? with
  | none => simp [bind, Except.bind, hr, pure, Except.pure]
  | some n =>
    simp [bind, Except.bind, hr, pure, Except.pure, checkCount, hcount n harity]

mutual

/-- A node that describes an expression is read as it. -/
theorem regexOf_of_describesRegex {place : Place} (node : Json) {r : Regex}
    (h : DescribesRegex node r) : regexOf place node = .ok r := by
  cases h with
  | eps => rfl
  | digit => rfl
  | letter => rfl
  | upper => rfl
  | lower => rfl
  | any => rfl
  | char hone =>
    unfold regexOf
    rw [charOperand_eq_ok_iff.mpr ⟨rfl, hone⟩]
    rfl
  | word => rfl
  | oneOf => rfl
  | star hbody =>
    refine regexOf_operator rfl ?_ (regexesOf_of_forall₂ _ (.cons hbody .nil)) rfl
    rintro _ ⟨⟩
    rfl
  | plus hbody =>
    refine regexOf_operator rfl ?_ (regexesOf_of_forall₂ _ (.cons hbody .nil)) rfl
    rintro _ ⟨⟩
    rfl
  | opt hbody =>
    refine regexOf_operator rfl ?_ (regexesOf_of_forall₂ _ (.cons hbody .nil)) rfl
    rintro _ ⟨⟩
    rfl
  | minus hleft hright =>
    refine regexOf_operator rfl ?_ (regexesOf_of_forall₂ _ (.cons hleft (.cons hright .nil))) rfl
    rintro _ ⟨⟩
    rfl
  | seq hparts =>
    refine regexOf_operator rfl ?_ (regexesOf_of_forall₂ _ hparts) rfl
    rintro _ ⟨⟩
  | alt hparts hr =>
    refine regexOf_operator rfl ?_ (regexesOf_of_forall₂ _ hparts) hr
    rintro _ ⟨⟩

theorem regexesOf_of_forall₂ {place : Place} {index : Nat} (nodes : List Json)
    {rs : List Regex} (h : List.Forall₂ DescribesRegex nodes rs) :
    regexesOf place index nodes = .ok rs := by
  cases h with
  | nil => rfl
  | cons hnode hrest =>
    rw [regexesOf, regexOf_of_describesRegex _ hnode, regexesOf_of_forall₂ _ hrest]
    rfl

end

theorem regexOf_eq_ok_iff {place : Place} {node : Json} {r : Regex} :
    regexOf place node = .ok r ↔ DescribesRegex node r :=
  ⟨describesRegex_of_regexOf node, regexOf_of_describesRegex node⟩

/-! ## Tokens and comments -/

theorem tokenOf_eq_ok_iff {value : Json} {place : Place} {pragma : TokenPragma} :
    tokenOf value place = .ok pragma ↔ DescribesToken value pragma := by
  constructor
  · intro h
    unfold tokenOf at h
    split at h
    · next fields =>
      split at h
      · next name hname =>
        split at h
        · cases h
        · next hne =>
          split at h
          · next node hnode =>
            obtain ⟨regex, hregex, h⟩ := bind_eq_ok_iff.mp h
            cases h
            exact ⟨fields, node, rfl, hname, by simpa using hne, hnode,
              regexOf_eq_ok_iff.mp hregex⟩
          · cases h
      · cases h
    · cases h
  · rintro ⟨fields, node, rfl, hname, hne, hnode, hregex⟩
    simp [tokenOf, hname, hne, hnode, regexOf_eq_ok_iff.mpr hregex, bind, Except.bind, pure,
      Except.pure]

theorem blockOf_eq_ok_iff {value : Json} {place : Place} {form : BlockForm} :
    blockOf value place = .ok form ↔ DescribesBlock value form := by
  constructor
  · intro h
    unfold blockOf at h
    split at h
    · split at h
      · cases h
      · next hne =>
        cases h
        exact ⟨rfl, by simpa using hne⟩
    · cases h
  · rintro ⟨rfl, hstart, hstop⟩
    simp [blockOf, hstart, hstop]

theorem blocks_eq_ok_iff {place : Place} {items : List Json} {block : List BlockForm} :
    checkItems blockOf place 0 items = .ok block ↔ List.Forall₂ DescribesBlock items block := by
  refine checkItems_eq_ok_iff fun _ _ _ => ?_
  exact blockOf_eq_ok_iff

theorem tokens_eq_ok_iff {place : Place} {items : List Json} {tokens : List TokenPragma} :
    checkItems tokenOf place 0 items = .ok tokens ↔ List.Forall₂ DescribesToken items tokens := by
  refine checkItems_eq_ok_iff fun _ _ _ => ?_
  exact tokenOf_eq_ok_iff

theorem commentsOf_eq_ok_iff {value : Json} {forms : CommentForms} :
    commentsOf value = .ok forms ↔
      ∃ fields, value = .object fields ∧ DescribesComments fields forms := by
  constructor
  · intro h
    unfold commentsOf at h
    split at h
    · next fields =>
      obtain ⟨line, hline, h⟩ := bind_eq_ok_iff.mp h
      split at h
      · next items hitems =>
        obtain ⟨block, hblock, h⟩ := bind_eq_ok_iff.mp h
        cases h
        exact ⟨fields, rfl, textsField_iff.mp hline, items, fieldOr_eq_array_iff.mp hitems,
          blocks_eq_ok_iff.mp hblock⟩
      · cases h
    · cases h
  · rintro ⟨fields, rfl, hline, items, hitems, hblock⟩
    simp [commentsOf, textsField_iff.mpr hline, fieldOr_eq_array_iff.mpr hitems,
      blocks_eq_ok_iff.mpr hblock, bind, Except.bind, pure,
      Except.pure]

/-! ## Grammars -/

theorem unknownKey?_eq_none_iff {fields : List (String × Json)} :
    unknownKey? fields = none ↔ ∀ key ∈ fields.map (·.1), key ∈ grammarKeys := by
  unfold unknownKey?
  split
  · next h => simpa [List.filter_eq_nil_iff] using h
  · next key rest h =>
    have hkey : key ∈ (fields.map (·.1)).filter (!grammarKeys.contains ·) := by
      rw [h]
      exact List.mem_cons_self
    simp only [reduceCtorEq, false_iff]
    intro hall
    simp only [List.mem_filter, Bool.not_eq_true', List.contains_eq_mem, decide_eq_false_iff_not]
      at hkey
    exact hkey.2 (hall key hkey.1)

/-- A field that is missing counts as an empty object. -/
theorem fieldOr_eq_object_iff {fields comments : List (String × Json)} {name : String} :
    fieldOr fields name (.object []) = .object comments ↔
      fields.lookup name = some (.object comments) ∨
        fields.lookup name = none ∧ comments = [] := by
  unfold fieldOr
  cases fields.lookup name <;> simp [eq_comm]

theorem grammarOf_eq_ok_iff {document : Json} {g : LexicalGrammar} :
    grammarOf document = .ok g ↔ DescribesGrammar document g := by
  constructor
  · intro h
    unfold grammarOf at h
    split at h
    · next fields =>
      split at h
      · cases h
      · next hkeys =>
        obtain ⟨names, hnames, h⟩ := bind_eq_ok_iff.mp h
        obtain ⟨categories, hcategories, h⟩ := bind_eq_ok_iff.mp h
        obtain ⟨symbols, hsymbols, h⟩ := bind_eq_ok_iff.mp h
        obtain ⟨reserved, hreserved, h⟩ := bind_eq_ok_iff.mp h
        split at h
        · next items hitems =>
          obtain ⟨tokens, htokens, h⟩ := bind_eq_ok_iff.mp h
          obtain ⟨comments, hcomments, h⟩ := bind_eq_ok_iff.mp h
          cases h
          obtain ⟨inner, hinner, hcomments⟩ := commentsOf_eq_ok_iff.mp hcomments
          exact ⟨fields, rfl, unknownKey?_eq_none_iff.mp hkeys,
            ⟨_, fieldOr_eq_array_iff.mp (stringsOf_eq_ok_iff.mp hnames),
              categories_eq_ok_iff.mp hcategories⟩,
            textsField_iff.mp hsymbols, textsField_iff.mp hreserved,
            ⟨items, fieldOr_eq_array_iff.mp hitems, tokens_eq_ok_iff.mp htokens⟩,
            ⟨inner, fieldOr_eq_object_iff.mp hinner, hcomments⟩⟩
        · cases h
    · cases h
  · rintro ⟨fields, rfl, h⟩
    obtain ⟨items, hitems, hcategories⟩ := h.categories
    obtain ⟨names, rfl⟩ := exists_names hcategories
    obtain ⟨tokens, htokens, hpragmas⟩ := h.tokens
    obtain ⟨inner, hinner, hcomments⟩ := h.comments
    simp [grammarOf, unknownKey?_eq_none_iff.mpr h.known, fieldOr_eq_array_iff.mpr hitems,
      stringsOf_eq_ok_iff.mpr rfl, categories_eq_ok_iff.mpr hcategories,
      textsField_iff.mpr h.symbols, textsField_iff.mpr h.reserved,
      fieldOr_eq_array_iff.mpr htokens, tokens_eq_ok_iff.mpr hpragmas,
      fieldOr_eq_object_iff.mpr hinner, commentsOf_eq_ok_iff.mpr ⟨inner, rfl, hcomments⟩,
      bind, Except.bind, pure, Except.pure]

end FlexSynth
