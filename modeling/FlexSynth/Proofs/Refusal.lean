import FlexSynth.Proofs.Scan.Rules
import FlexSynth.Proofs.Symbols.Numbering

/-!
# Grammars without a scanner

A scanner is made for every grammar whose expressions the translator can write. Nothing else
keeps one from being made (`refused_only_by_translator`): the symbol table passes its checks, and
comments, literals and built-in categories have rules whatever the grammar is. When expressions
are refused, the first one in order of declaration is reported (`FirstRefusal`), in the words of
the translator, and blamed on its own token category even if the translator has blamed another.
-/

namespace FlexSynth

open Partial

section

variable {symbols : SymbolTable} {translate : Translator} {pragma : TokenPragma}
  {pragmas : List TokenPragma} {e : PatternError}

/-! ## Token categories -/

theorem tokenRule_eq_error_iff : tokenRule symbols translate pragma = .error e ↔
    ∃ cause, translate pragma.regex = .error cause ∧ e = ⟨cause.fault, some pragma.name⟩ := by
  unfold tokenRule PatternError.forToken
  cases translate pragma.regex <;> simp [eq_comm]

theorem exists_tokenRule_iff : (∃ r, tokenRule symbols translate pragma = .ok r) ↔
    ∃ pattern, translate pragma.regex = .ok pattern := by
  simp only [tokenRule_eq_ok_iff]
  constructor
  · rintro ⟨_, pattern, hpattern, _⟩
    exact ⟨pattern, hpattern⟩
  · rintro ⟨pattern, hpattern⟩
    exact ⟨_, pattern, hpattern, rfl⟩

/-- The refusal that is reported of token categories: that of the first one whose expression has
no pattern, under the name of the category. -/
def FirstRefusal (translate : Translator) (pragmas : List TokenPragma) (e : PatternError) : Prop :=
  ∃ before pragma after cause, pragmas = before ++ pragma :: after ∧
    (∀ earlier ∈ before, ∃ pattern, translate earlier.regex = .ok pattern) ∧
    translate pragma.regex = .error cause ∧ e = ⟨cause.fault, some pragma.name⟩

theorem tokenRules_eq_error_iff :
    tokenRules symbols translate pragmas = .error e ↔ FirstRefusal translate pragmas e := by
  unfold tokenRules FirstRefusal
  simp only [mapM_eq_error_iff, exists_tokenRule_iff, tokenRule_eq_error_iff]
  constructor
  · rintro ⟨before, pragma, after, hsplit, hbefore, cause, hcause, he⟩
    exact ⟨before, pragma, after, cause, hsplit, hbefore, hcause, he⟩
  · rintro ⟨before, pragma, after, cause, hsplit, hbefore, hcause, he⟩
    exact ⟨before, pragma, after, hsplit, hbefore, cause, hcause, he⟩

/-- The token category is known that has no pattern. -/
theorem token_of_tokenRules (h : tokenRules symbols translate pragmas = .error e) :
    ∃ pragma ∈ pragmas, e.token = some pragma.name := by
  obtain ⟨before, pragma, after, cause, rfl, _, _, rfl⟩ := tokenRules_eq_error_iff.mp h
  exact ⟨pragma, by simp, rfl⟩

end

/-! ## Scanners -/

section

variable {g : LexicalGrammar} {options : GeneratorOptions} {translate : Translator}
  {e : PatternError}

/-- Whether a scanner can be made does not depend on the options. -/
theorem synthesize_eq_error_iff : synthesize g options translate = .error e ↔
    tokenRules g.symbolTable translate g.tokens = .error e := by
  unfold synthesize ruleGroups
  cases tokenRules g.symbolTable translate g.tokens <;> simp [bind, Except.bind, pure, Except.pure]

theorem exists_synthesis {tokens : List Rule}
    (h : tokenRules g.symbolTable translate g.tokens = .ok tokens) (options : GeneratorOptions) :
    ∃ s, synthesize g options translate = .ok s := by
  cases hs : synthesize g options translate with
  | ok s => exact ⟨s, rfl⟩
  | error e =>
    rw [synthesize_eq_error_iff, h] at hs
    cases hs

/-- A grammar has a scanner just when no expression of it is refused. -/
theorem exists_refusal_iff : (∃ e, synthesize g options translate = .error e) ↔
    ∃ pragma ∈ g.tokens, ∃ cause, translate pragma.regex = .error cause := by
  constructor
  · rintro ⟨e, he⟩
    rw [synthesize_eq_error_iff, tokenRules_eq_error_iff] at he
    obtain ⟨before, pragma, after, cause, hsplit, _, hcause, _⟩ := he
    exact ⟨pragma, by simp [hsplit], cause, hcause⟩
  · rintro ⟨pragma, hpragma, cause, hcause⟩
    cases hs : synthesize g options translate with
    | error e => exact ⟨e, rfl⟩
    | ok s =>
      obtain ⟨tokens, htokens, _⟩ := rules_of_synthesize hs
      obtain ⟨r, _, hrule⟩ := exists_result htokens hpragma
      obtain ⟨pattern, hpattern⟩ := exists_tokenRule_iff.mp ⟨r, hrule⟩
      rw [hcause] at hpattern
      cases hpattern

/-- The rules of a scanner with those of the token categories among them: one for each, in order
of declaration, with the pattern that the translator gives and the identifier that the symbol
table gives. -/
structure HasTokenRules (g : LexicalGrammar) (options : GeneratorOptions) (translate : Translator)
    (s : Synthesis) : Prop where
  symbols : s.symbols = g.symbolTable
  rules : ∃ tokens, s.description.rules = keywordRules s.symbols ++ g.comments.rules ++ tokens
      ++ literalRules g options.charLiteralErrors ++ categoryRules g ++ fallbackRules ∧
    List.Forall₂ (fun pragma r => r.states = [StartState.initial] ∧
      translate pragma.regex = .ok r.pattern ∧
      r.token? = some (s.symbols.tokenIdentifier pragma.name)) g.tokens tokens

theorem hasTokenRules_of_synthesize {s : Synthesis} (hs : synthesize g options translate = .ok s) :
    HasTokenRules g options translate s := by
  have hsymbols : s.symbols = g.symbolTable := symbols_of_synthesize hs
  obtain ⟨tokens, htokens, hrules⟩ := rules_of_synthesize hs
  refine ⟨hsymbols, tokens, by rw [hrules, hsymbols], htokens.imp ?_⟩
  intro pragma r hrule
  obtain ⟨pattern, hpattern, rfl⟩ := tokenRule_eq_ok_iff.mp hrule
  rw [hsymbols]
  exact ⟨rfl, hpattern, rfl⟩

end

/-- Making a scanner fails just when the translator refuses an expression. The first refusal is
reported then, and blamed on its token category. Otherwise every token category has one rule. -/
theorem refused_only_by_translator (g : LexicalGrammar) (options : GeneratorOptions)
    (translate : Translator) :
    SymbolTable.ofEntries g.symbolTable.entries = .ok g.symbolTable ∧
    ((∃ e, synthesize g options translate = .error e) ↔
      ∃ pragma ∈ g.tokens, ∃ cause, translate pragma.regex = .error cause) ∧
    (∀ e, synthesize g options translate = .error e ↔ FirstRefusal translate g.tokens e) ∧
    ∀ s, synthesize g options translate = .ok s → HasTokenRules g options translate s :=
  ⟨SymbolTable.ofEntries_number, exists_refusal_iff,
    fun _ => synthesize_eq_error_iff.trans tokenRules_eq_error_iff,
    fun _ => hasTokenRules_of_synthesize⟩

/-- What a translator says of another place is not heard. -/
example : synthesize exampleGrammar { name := "example" } (fun r => match r with
      | .word _ => .error ⟨.reported "no words", some "elsewhere"⟩
      | _ => .ok "[a-z]") = .error ⟨.reported "no words", some "Version"⟩ :=
  rfl

end FlexSynth
