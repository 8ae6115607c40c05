import FlexSynth.Proofs.Grammar.Schema
import FlexSynth.Proofs.Regex.Meaning

/-!
# What the schema promises about a grammar

The documents that are loaded are those that describe a grammar (`loaded_iff_described`), and
the rest is rejected with a violation of the schema.

A grammar that comes from a document has no empty keyword, no empty comment delimiter,
and no character in its expressions that is not one character (`wellFormed_of_ofJson`).
Everything that a scanner needs of its grammar follows from that: a keyword or a
delimiter that is empty would match nothing, and an empty character would be written as
an empty bracket expression.
-/

namespace FlexSynth

open Partial

/-- What is true of every grammar that comes from a document. -/
structure LexicalGrammar.WellFormed (g : LexicalGrammar) : Prop where
  keyword_ne_empty : ∀ text ∈ g.keywords, text ≠ ""
  line_ne_empty : ∀ delimiter ∈ g.comments.line, delimiter ≠ ""
  block_ne_empty : ∀ form ∈ g.comments.block, form.start ≠ "" ∧ form.stop ≠ ""
  single_chars : ∀ pragma ∈ g.tokens, pragma.regex.HasSingleChars

/-! ## Expressions -/

theorem hasSingleChars_sequence {rs : List Regex} (h : ∀ r ∈ rs, r.HasSingleChars) :
    (Regex.sequence rs).HasSingleChars := by
  induction rs with
  | nil => trivial
  | cons r rs ih =>
    have hrest : ∀ s ∈ rs, s.HasSingleChars := fun s hs => h s (List.mem_cons_of_mem r hs)
    cases rs with
    | nil => exact h r List.mem_cons_self
    | cons s rs => exact ⟨h r List.mem_cons_self, ih hrest⟩

theorem hasSingleChars_alternation {rs : List Regex} (h : ∀ r ∈ rs, r.HasSingleChars) {r : Regex}
    (hr : Regex.alternation? rs = some r) : r.HasSingleChars := by
  induction rs generalizing r with
  | nil => cases hr
  | cons s rs ih =>
    have hrest : ∀ t ∈ rs, t.HasSingleChars := fun t ht => h t (List.mem_cons_of_mem s ht)
    cases rs with
    | nil =>
      cases hr
      exact h s List.mem_cons_self
    | cons t rs =>
      obtain ⟨u, hu, rfl⟩ := Option.map_eq_some_iff.mp hr
      exact ⟨h s List.mem_cons_self, ih hrest hu⟩

mutual

/-- An expression that a node describes holds single characters. -/
theorem hasSingleChars_of_describesRegex (node : Json) {r : Regex} (h : DescribesRegex node r) :
    r.HasSingleChars := by
  cases h with
  | char hone => exact hone
  | @star node body hbody =>
    have hchars : body.HasSingleChars := hasSingleChars_of_describesRegex node hbody
    exact hchars
  | @plus node body hbody =>
    have hchars : body.HasSingleChars := hasSingleChars_of_describesRegex node hbody
    exact hchars
  | @opt node body hbody =>
    have hchars : body.HasSingleChars := hasSingleChars_of_describesRegex node hbody
    exact hchars
  | minus hleft hright =>
    exact ⟨hasSingleChars_of_describesRegex _ hleft, hasSingleChars_of_describesRegex _ hright⟩
  | seq hparts => exact hasSingleChars_sequence (hasSingleChars_of_forall₂ _ hparts)
  | alt hparts hr => exact hasSingleChars_alternation (hasSingleChars_of_forall₂ _ hparts) hr
  | eps | digit | letter | upper | lower | any | word | oneOf => trivial

theorem hasSingleChars_of_forall₂ (nodes : List Json) {rs : List Regex}
    (h : List.Forall₂ DescribesRegex nodes rs) : ∀ r ∈ rs, r.HasSingleChars := by
  cases h with
  | nil => simp
  | cons hnode hrest =>
    intro r hr
    rcases List.mem_cons.mp hr with rfl | hr
    · exact hasSingleChars_of_describesRegex _ hnode
    · exact hasSingleChars_of_forall₂ _ hrest r hr

end

/-! ## Grammars -/

section

variable {document : Json} {g : LexicalGrammar}

/-- Every grammar that a document describes is well-formed. -/
theorem DescribesGrammar.wellFormed (h : DescribesGrammar document g) : g.WellFormed := by
  obtain ⟨fields, _, h⟩ := h
  obtain ⟨_, _, hline, items, _, hblock⟩ := h.comments
  obtain ⟨tokens, _, htokens⟩ := h.tokens
  constructor
  case keyword_ne_empty =>
    intro text htext
    rcases List.mem_append.mp htext with hsymbol | hword
    · exact h.symbols.ne_empty text hsymbol
    · exact h.reserved.ne_empty text hword
  case line_ne_empty => exact hline.ne_empty
  case block_ne_empty =>
    intro form hform
    obtain ⟨_, _, _, hne⟩ := exists_source hblock hform
    exact hne
  case single_chars =>
    intro pragma hpragma
    obtain ⟨_, _, _, node, _, _, _, _, hregex⟩ := exists_source htokens hpragma
    exact hasSingleChars_of_describesRegex node hregex

/-- No token category that a document describes is without a name. -/
theorem DescribesGrammar.name_ne_empty (h : DescribesGrammar document g) :
    ∀ pragma ∈ g.tokens, pragma.name ≠ "" := by
  obtain ⟨fields, _, h⟩ := h
  obtain ⟨_, _, htokens⟩ := h.tokens
  intro pragma hpragma
  obtain ⟨_, _, _, _, _, _, hne, _⟩ := exists_source htokens hpragma
  exact hne

theorem ofJson_eq_ok_iff {filename : String} :
    LexicalGrammar.ofJson document filename = .ok g ↔ DescribesGrammar document g := by
  rw [← grammarOf_eq_ok_iff, LexicalGrammar.ofJson]
  cases grammarOf document <;> simp

/-- Every grammar that comes from a document is well-formed. -/
theorem wellFormed_of_ofJson {filename : String}
    (h : LexicalGrammar.ofJson document filename = .ok g) : g.WellFormed :=
  (ofJson_eq_ok_iff.mp h).wellFormed

/-- A category is in use just when an item of the document names it; it does not matter
where, or how often. -/
theorem DescribesFields.uses_iff {fields : List (String × Json)} (h : DescribesFields fields g)
    (c : Category) : g.uses c = true ↔
      ∃ items, ListField fields "categories" items ∧ ∃ value ∈ items, DescribesCategory value c := by
  obtain ⟨items, hitems, hcategories⟩ := h.categories
  rw [LexicalGrammar.uses, List.contains_iff_mem]
  constructor
  · intro hc
    obtain ⟨value, hvalue, hdescribes⟩ := exists_source hcategories hc
    exact ⟨items, hitems, value, hvalue, hdescribes⟩
  · rintro ⟨items', hitems', value, hvalue, hdescribes⟩
    obtain rfl : items' = items := hitems'.unique hitems
    obtain ⟨c', hc', hdescribes'⟩ := exists_result hcategories hvalue
    rwa [hdescribes.unique hdescribes']

end

/-- Just the documents that describe a grammar are loaded, as the grammar that they describe.
Every other document is rejected with a violation of the schema, in the name of the file.
What is loaded has no empty text where one would do harm, and its categories are a set. -/
theorem loaded_iff_described (document : Json) (filename : String) :
    (∀ g, LexicalGrammar.ofJson document filename = .ok g ↔ DescribesGrammar document g) ∧
    ((¬∃ g, DescribesGrammar document g) ↔
      ∃ v, LexicalGrammar.ofJson document filename = .error ⟨.invalid v, filename⟩) ∧
    ∀ g fields, LexicalGrammar.ofJson document filename = .ok g → document = .object fields →
      g.WellFormed ∧ (∀ pragma ∈ g.tokens, pragma.name ≠ "") ∧
      ∀ c, g.uses c = true ↔ ∃ items, ListField fields "categories" items ∧
        ∃ value ∈ items, DescribesCategory value c := by
  have hloaded (g : LexicalGrammar) :
      LexicalGrammar.ofJson document filename = .ok g ↔ DescribesGrammar document g :=
    ofJson_eq_ok_iff
  refine ⟨hloaded, ?rejected, ?loaded⟩
  case rejected =>
    simp only [← hloaded, LexicalGrammar.ofJson]
    cases grammarOf document <;> simp
  case loaded =>
    rintro g fields h rfl
    have hdescribes : DescribesGrammar (.object fields) g := ofJson_eq_ok_iff.mp h
    have huses : ∀ c, g.uses c = true ↔ ∃ items, ListField fields "categories" items ∧
        ∃ value ∈ items, DescribesCategory value c := by
      obtain ⟨_, ⟨⟩, hfields⟩ := hdescribes
      exact hfields.uses_iff
    exact ⟨hdescribes.wellFormed, hdescribes.name_ne_empty, huses⟩

end FlexSynth
