import FlexSynth.Proofs.Scan.Rules
import FlexSynth.Proofs.Symbols

/-!
# Scanner and parser agree on terminals

The parser of a language knows its terminals by the symbol table, the scanner returns
them from its rules. `terminals_agree` says that the two match: which tokens are
returned at all, from which rules the identifier of each symbol is returned, and that
no rule goes on after it has returned a token.

The rules of keywords and of token categories return identifiers, which are no built-in
tokens. All other rules return built-in tokens or nothing. So for an identifier, the
rules that return it are looked for in the two groups of symbols only
(`filter_returns_eq`).
-/

namespace FlexSynth

open Partial SymbolTable

/-! ## What rules return -/

def Category.token : Category → String
  | .string => BuiltinToken.string
  | .char => BuiltinToken.char
  | .double => BuiltinToken.double
  | .integer => BuiltinToken.integer
  | .ident => BuiltinToken.ident

def Action.emitted? : Action → Option String
  | .emit token => some token
  | _ => none

def Rule.Returns (r : Rule) (token : String) : Prop :=
  .emit token ∈ r.actions

instance (r : Rule) (token : String) : Decidable (r.Returns token) :=
  inferInstanceAs (Decidable (.emit token ∈ r.actions))

theorem Category.token_mem_builtin (c : Category) : c.token ∈ BuiltinToken.all := by
  cases c <;> decide

theorem Category.token_ne_error (c : Category) : c.token ≠ BuiltinToken.error := by
  cases c <;> decide

theorem Category.token_injective {c d : Category} (h : c.token = d.token) : c = d := by
  cases c <;> cases d <;> first | rfl | exact absurd h (by decide)

section

variable {g : LexicalGrammar} {options : GeneratorOptions} {translate : Translator}
  {s : Synthesis} {r : Rule} {token : String}

theorem returns_keyword {state text id : String} :
    (Rule.ofState state text [.emit id]).Returns token ↔ token = id := by
  unfold Rule.Returns Rule.ofState
  rw [List.mem_singleton, Action.emit.injEq]

theorem returns_tokenRule {symbols : SymbolTable} {pragma : TokenPragma}
    (h : tokenRule symbols translate pragma = .ok r) :
    r.Returns token ↔ token = symbols.tokenIdentifier pragma.name := by
  obtain ⟨pattern, _, rfl⟩ := tokenRule_eq_ok_iff.mp h
  simp [Rule.Returns, Rule.ofState]

theorem not_returns_comment {forms : CommentForms} (hr : r ∈ forms.rules) : ¬r.Returns token := by
  rcases mem_commentRules.mp hr with ⟨delimiter, _, rfl⟩ | ⟨form, n, _, hr⟩
  · simp [Rule.Returns, lineCommentRule]
  · rcases mem_blockCommentRules.mp hr with rfl | rfl | rfl | rfl <;>
      simp [Rule.Returns, Rule.ofState]

theorem returns_literal {charErrors : Bool} (hr : r ∈ literalRules g charErrors)
    (h : r.Returns token) :
    token = BuiltinToken.error ∨ ∃ c, g.uses c = true ∧ token = c.token := by
  rcases mem_literalRules.mp hr with ⟨huses, hr⟩ | ⟨huses, hr⟩
  · have hrules : ∀ r ∈ stringLiteralRules BuiltinToken.string BuiltinToken.error,
        ∀ a ∈ r.actions, ∀ token ∈ a.emitted?,
          token = BuiltinToken.error ∨ token = Category.string.token := by decide
    exact (hrules r hr _ h token rfl).imp_right fun htoken => ⟨.string, huses, htoken⟩
  · have hrules : ∀ errors : Bool, ∀ r ∈ charRules BuiltinToken.char
        (if errors then some BuiltinToken.error else none), ∀ a ∈ r.actions, ∀ token ∈ a.emitted?,
          token = BuiltinToken.error ∨ token = Category.char.token := by decide
    exact (hrules charErrors r hr _ h token rfl).imp_right fun htoken => ⟨.char, huses, htoken⟩

theorem returns_category (hr : r ∈ categoryRules g) (h : r.Returns token) :
    ∃ c, g.uses c = true ∧ token = c.token := by
  obtain ⟨entry, hentry, huses, rfl⟩ := mem_categoryRules.mp hr
  have hrules : ∀ entry ∈ categoryTable, ∀ a ∈ entry.rule.actions, ∀ token ∈ a.emitted?,
      token = entry.category.token := by decide
  exact ⟨entry.category, huses, hrules entry hentry _ h token rfl⟩

theorem returns_fallback (hr : r ∈ fallbackRules) (h : r.Returns token) :
    token = BuiltinToken.error := by
  have hrules : ∀ r ∈ fallbackRules, ∀ a ∈ r.actions, ∀ token ∈ a.emitted?,
      token = BuiltinToken.error := by decide
  exact hrules r hr _ h token rfl

/-- The token of a category in use is returned by one of its rules. -/
theorem exists_returns_category {c : Category} (huses : g.uses c = true) :
    ∃ r, RuleOrigin g options translate r ∧ r.Returns c.token := by
  have htable {entry : CategoryRule} (hentry : entry ∈ categoryTable) (hc : entry.category = c)
      (hreturns : entry.rule.Returns c.token) :
      ∃ r, RuleOrigin g options translate r ∧ r.Returns c.token :=
    ⟨_, .category hentry (hc ▸ huses), hreturns⟩
  cases c with
  | string =>
    have hrule : ∃ r ∈ stringLiteralRules BuiltinToken.string BuiltinToken.error,
        r.Returns Category.string.token := by decide
    obtain ⟨r, hr, hreturns⟩ := hrule
    exact ⟨r, .literal (mem_literalRules.mpr (.inl ⟨huses, hr⟩)), hreturns⟩
  | char =>
    have hrule : ∀ errors : Bool, ∃ r ∈ charRules BuiltinToken.char
        (if errors then some BuiltinToken.error else none),
        r.Returns Category.char.token := by decide
    obtain ⟨r, hr, hreturns⟩ := hrule options.charLiteralErrors
    exact ⟨r, .literal (mem_literalRules.mpr (.inr ⟨huses, hr⟩)), hreturns⟩
  | double => exact htable List.mem_cons_self rfl (by decide)
  | integer => exact htable (List.mem_cons_of_mem _ List.mem_cons_self) rfl (by decide)
  | ident =>
    exact htable (List.mem_cons_of_mem _ (List.mem_cons_of_mem _ List.mem_cons_self)) rfl
      (by decide)

/-- No rule goes on after it has returned a token. -/
theorem not_emit_mem_dropLast (horigin : RuleOrigin g options translate r) :
    .emit token ∉ r.actions.dropLast := by
  cases horigin with
  | keyword _ => exact List.not_mem_nil
  | comment hr =>
    rcases mem_commentRules.mp hr with ⟨delimiter, _, rfl⟩ | ⟨form, n, _, hr⟩
    · exact List.not_mem_nil
    · rcases mem_blockCommentRules.mp hr with rfl | rfl | rfl | rfl <;> exact List.not_mem_nil
  | token _ hr =>
    obtain ⟨pattern, _, rfl⟩ := tokenRule_eq_ok_iff.mp hr
    simp [Rule.ofState]
  | literal hr =>
    intro hemit
    have hnone := forall_mem_literalRules (P := fun r => ∀ a ∈ r.actions.dropLast,
      a.emitted? = none) (by decide) (by decide) hr _ hemit
    cases hnone
  | category _ _ => simp [CategoryRule.rule, Rule.ofState]
  | fallback hr =>
    intro hemit
    have hrules : ∀ r ∈ fallbackRules, ∀ a ∈ r.actions.dropLast, a.emitted? = none := by decide
    have hnone := hrules r hr _ hemit
    cases hnone

/-! ## Identifiers in rules -/

/-- A token category of the grammar has an identifier, which its rules return. -/
theorem exists_tokenIdentifier {name : String} (hname : name ∈ g.tokenNames) :
    ∃ id, g.symbolTable.find? (.token name) = some id ∧ (.token name, id) ∈ g.symbolTable.entries ∧
      g.symbolTable.tokenIdentifier name = id := by
  have hsymbol : Symbol.token name ∈ symbolsOf g.keywords g.tokenNames :=
    mem_symbolsOf.mpr (.inr ⟨name, hname, rfl⟩)
  obtain ⟨id, hmem⟩ := exists_identifier hsymbol
  have hfind : g.symbolTable.find? (.token name) = some id := find?_number_eq_some_iff.mpr hmem
  refine ⟨id, hfind, hmem, ?_⟩
  unfold tokenIdentifier
  rw [hfind, Option.getD_some]

theorem mem_tokenNames {pragma : TokenPragma} (h : pragma ∈ g.tokens) :
    pragma.name ∈ g.tokenNames :=
  List.mem_map_of_mem h

/-- The rules that return an identifier are rules of symbols. -/
theorem filter_returns_eq (hs : synthesize g options translate = .ok s)
    (htoken : token ∉ BuiltinToken.all) :
    ∃ tokens, List.Forall₂ (fun pragma r => tokenRule g.symbolTable translate pragma = .ok r)
        g.tokens tokens ∧
      s.description.rules.filter (fun r => r.Returns token) =
        (keywordRules g.symbolTable).filter (fun r => r.Returns token)
          ++ tokens.filter (fun r => r.Returns token) := by
  obtain ⟨tokens, htokens, hrules⟩ := rules_of_synthesize hs
  have hnone (rules : List Rule) (h : ∀ r ∈ rules, r.Returns token → token ∈ BuiltinToken.all) :
      rules.filter (fun r => r.Returns token) = [] := by
    rw [List.filter_eq_nil_iff]
    intro r hr hreturns
    exact htoken (h r hr (of_decide_eq_true hreturns))
  have hcategory : (∃ c, g.uses c = true ∧ token = c.token) → token ∈ BuiltinToken.all := by
    rintro ⟨c, _, rfl⟩
    exact c.token_mem_builtin
  have herror : token = BuiltinToken.error → token ∈ BuiltinToken.all := by
    rintro rfl
    decide
  refine ⟨tokens, htokens, ?_⟩
  rw [hrules]
  simp only [List.filter_append]
  rw [hnone g.comments.rules fun r hr h => absurd h (not_returns_comment hr),
    hnone (literalRules g _) fun r hr h => (returns_literal hr h).elim herror hcategory,
    hnone (categoryRules g) fun r hr h => hcategory (returns_category hr h),
    hnone fallbackRules fun r hr h => herror (returns_fallback hr h)]
  simp only [List.append_nil]

theorem filter_keywordRules_of_keyword {text id : String}
    (h : (text, id) ∈ g.symbolTable.keywords) :
    (keywordRules g.symbolTable).filter (fun r => r.Returns id) =
      [.ofState StartState.initial (Text.cString text) [.emit id]] := by
  -- No other keyword has the identifier, and no keyword stands twice in the table.
  have hone : g.symbolTable.keywords.filter (fun keyword => keyword.2 = id) = [(text, id)] := by
    refine List.perm_singleton.mp ((List.perm_ext_iff_of_nodup (nodup_keywords.filter _)
      (List.nodup_singleton _)).mpr ?_)
    rintro ⟨text', id'⟩
    rw [List.mem_filter, List.mem_singleton, decide_eq_true_eq]
    constructor
    · rintro ⟨hmem, rfl⟩
      cases symbol_unique (mem_keywords.mp hmem) (mem_keywords.mp h)
      rfl
    · intro hsame
      cases hsame
      exact ⟨h, rfl⟩
  unfold keywordRules
  rw [List.filter_map]
  have hreturns : ((fun r => decide (r.Returns id)) ∘ fun keyword : String × String =>
      Rule.ofState StartState.initial (Text.cString keyword.1) [.emit keyword.2]) =
      fun keyword => decide (keyword.2 = id) := by
    funext keyword
    exact decide_eq_decide.mpr (returns_keyword.trans eq_comm)
  rw [hreturns, hone]
  rfl

theorem filter_keywordRules_of_token {name id : String}
    (h : (.token name, id) ∈ g.symbolTable.entries) :
    (keywordRules g.symbolTable).filter (fun r => r.Returns id) = [] := by
  rw [List.filter_eq_nil_iff]
  intro r hr hreturns
  obtain ⟨text, id', hmem, rfl⟩ := mem_keywordRules.mp hr
  cases returns_keyword.mp (of_decide_eq_true hreturns)
  cases symbol_unique (mem_keywords.mp hmem) h

theorem filter_tokenRules_of_keyword {tokens : List Rule} {text id : String}
    (htokens : List.Forall₂ (fun pragma r => tokenRule g.symbolTable translate pragma = .ok r)
      g.tokens tokens) (h : (.keyword text, id) ∈ g.symbolTable.entries) :
    tokens.filter (fun r => r.Returns id) = [] := by
  rw [List.filter_eq_nil_iff]
  intro r hr hreturns
  obtain ⟨pragma, hpragma, hrule⟩ := (mem_results_iff htokens).mp hr
  obtain ⟨id', _, hmem, hid⟩ := exists_tokenIdentifier (mem_tokenNames hpragma)
  rw [of_decide_eq_true hreturns |> (returns_tokenRule hrule).mp, hid] at h
  cases symbol_unique hmem h

/-- Of the rules of token categories, those of one name return its identifier. -/
theorem filter_tokenRules_of_token {tokens : List Rule} {name id : String}
    (htokens : List.Forall₂ (fun pragma r => tokenRule g.symbolTable translate pragma = .ok r)
      g.tokens tokens) (h : (.token name, id) ∈ g.symbolTable.entries) :
    List.Forall₂ (fun pragma r => tokenRule g.symbolTable translate pragma = .ok r)
      (g.tokens.filter fun pragma => pragma.name = name) (tokens.filter fun r => r.Returns id) := by
  have hboth := (List.forall₂_and_left (p := fun pragma => pragma ∈ g.tokens) g.tokens tokens).mpr
    ⟨fun _ hpragma => hpragma, htokens⟩
  refine List.Forall₂.imp (fun _ _ hrule => hrule.2) (List.rel_filter ?_ hboth)
  rintro pragma r ⟨hpragma, hrule⟩
  obtain ⟨id', hfind, hmem, hid⟩ := exists_tokenIdentifier (mem_tokenNames hpragma)
  show decide (pragma.name = name) = true ↔ decide (r.Returns id) = true
  rw [decide_eq_true_eq, decide_eq_true_eq, returns_tokenRule hrule, hid]
  constructor
  · rintro rfl
    have hfound := find?_number_eq_some_iff.mpr h
    exact Option.some.inj (hfound.symm.trans hfind)
  · rintro rfl
    exact Symbol.token.inj (symbol_unique hmem h)

/-! ## Agreement -/

/-- What the parser may rely on. -/
structure TerminalsAgree (g : LexicalGrammar) (translate : Translator) (s : Synthesis) : Prop where
  /-- The tokens that are returned at all. -/
  returned_iff : ∀ token, (∃ r ∈ s.description.rules, r.Returns token) ↔
    token ∈ s.symbols.identifiers ∨ token = BuiltinToken.error ∨
      ∃ c, g.uses c = true ∧ token = c.token
  /-- The token of a category that the grammar does not use is not returned. -/
  unused : ∀ c, g.uses c = false → ∀ r ∈ s.description.rules, ¬r.Returns c.token
  distinct : s.symbols.identifiers.Nodup
  not_builtin : ∀ id ∈ s.symbols.identifiers, id ∉ BuiltinToken.all
  /-- One rule returns the identifier of a keyword, and it matches the keyword. -/
  keyword : ∀ text id, (text, id) ∈ s.symbols.keywords →
    ∃ r, s.description.rules.filter (fun r => r.Returns id) = [r] ∧ r.pattern = Text.cString text
  /-- A token category has an identifier, and the rules that return it are the rules of
  the category, as often as it has been declared. -/
  category : ∀ name ∈ g.tokenNames, ∃ id, s.symbols.find? (.token name) = some id ∧
    List.Forall₂ (fun pragma r => tokenRule s.symbols translate pragma = .ok r)
      (g.tokens.filter fun pragma => pragma.name = name)
      (s.description.rules.filter fun r => r.Returns id)
  /-- Returning a token is the last that a rule does. -/
  returns_last : ∀ r ∈ s.description.rules, ∀ token, .emit token ∉ r.actions.dropLast

/-- The identifier of a symbol is returned by a rule of the symbol. -/
theorem exists_returns_symbol (hs : synthesize g options translate = .ok s) {symbol : Symbol}
    (h : (symbol, token) ∈ g.symbolTable.entries) : ∃ r ∈ s.description.rules, r.Returns token := by
  cases symbol with
  | keyword text =>
    exact ⟨_, (mem_rules_iff hs).mpr (.keyword (mem_keywords.mpr h)), returns_keyword.mpr rfl⟩
  | token name =>
    have hname : name ∈ g.tokenNames := by
      rcases mem_symbolsOf.mp (mem_symbolsOf_of_mem h) with ⟨_, _, hsame⟩ | ⟨_, hmem, hsame⟩
      · cases hsame
      · cases hsame
        exact hmem
    obtain ⟨pragma, hpragma, rfl⟩ := List.mem_map.mp hname
    obtain ⟨tokens, htokens, hrules⟩ := rules_of_synthesize hs
    obtain ⟨r, hr, hrule⟩ := exists_result htokens hpragma
    obtain ⟨id, hfind, _, hid⟩ := exists_tokenIdentifier hname
    have hsame : token = id := Option.some.inj ((find?_number_eq_some_iff.mpr h).symm.trans hfind)
    exact ⟨r, (mem_rules_iff hs).mpr (.token hpragma hrule),
      (returns_tokenRule hrule).mpr (hsame.trans hid.symm)⟩

theorem returned_iff (hs : synthesize g options translate = .ok s) (token : String) :
    (∃ r ∈ s.description.rules, r.Returns token) ↔
      token ∈ g.symbolTable.identifiers ∨ token = BuiltinToken.error ∨
        ∃ c, g.uses c = true ∧ token = c.token := by
  constructor
  · rintro ⟨r, hr, hreturns⟩
    cases (mem_rules_iff hs).mp hr with
    | @keyword text id hmem =>
      rw [returns_keyword.mp hreturns]
      exact .inl (mem_identifiers.mpr ⟨_, mem_keywords.mp hmem⟩)
    | comment hr => exact absurd hreturns (not_returns_comment hr)
    | token hpragma hrule =>
      obtain ⟨id, _, hmem, hid⟩ := exists_tokenIdentifier (mem_tokenNames hpragma)
      rw [(returns_tokenRule hrule).mp hreturns, hid]
      exact .inl (mem_identifiers.mpr ⟨_, hmem⟩)
    | literal hr => exact .inr (returns_literal hr hreturns)
    | category hentry huses =>
      exact .inr (.inr (returns_category (mem_categoryRules.mpr ⟨_, hentry, huses, rfl⟩) hreturns))
    | fallback hr => exact .inr (.inl (returns_fallback hr hreturns))
  · rintro (hid | rfl | ⟨c, huses, rfl⟩)
    · obtain ⟨symbol, hmem⟩ := mem_identifiers.mp hid
      exact exists_returns_symbol hs hmem
    · have hrule : ∃ r ∈ fallbackRules, r.Returns BuiltinToken.error := by decide
      obtain ⟨r, hr, hreturns⟩ := hrule
      exact ⟨r, (mem_rules_iff hs).mpr (.fallback hr), hreturns⟩
    · obtain ⟨r, horigin, hreturns⟩ := exists_returns_category huses
      exact ⟨r, (mem_rules_iff hs).mpr horigin, hreturns⟩

theorem not_returns_of_unused (hs : synthesize g options translate = .ok s) {c : Category}
    (hunused : g.uses c = false) (hr : r ∈ s.description.rules) : ¬r.Returns c.token := by
  intro hreturns
  rcases (returned_iff hs c.token).mp ⟨r, hr, hreturns⟩ with hid | herror | ⟨d, huses, hsame⟩
  · exact not_mem_builtin_of_mem hid c.token_mem_builtin
  · exact c.token_ne_error herror
  · rw [Category.token_injective hsame, huses] at hunused
    cases hunused

end

/-- The terminals that a scanner returns are those of its symbol table, the error token
and the tokens of the categories in use, each from the rules that it belongs to. -/
theorem terminals_agree {g : LexicalGrammar} {options : GeneratorOptions} {translate : Translator}
    {s : Synthesis} (hs : synthesize g options translate = .ok s) :
    TerminalsAgree g translate s where
  returned_iff := by
    rw [symbols_of_synthesize hs]
    exact returned_iff hs
  unused := fun _ hunused _ hr => not_returns_of_unused hs hunused hr
  distinct := by
    rw [symbols_of_synthesize hs]
    exact nodup_identifiers
  not_builtin := by
    rw [symbols_of_synthesize hs]
    exact fun _ => not_mem_builtin_of_mem
  keyword := by
    intro text id hmem
    rw [symbols_of_synthesize hs] at hmem
    have hentry := mem_keywords.mp hmem
    obtain ⟨tokens, htokens, hfilter⟩ :=
      filter_returns_eq hs (not_mem_builtin_of_mem (mem_identifiers.mpr ⟨_, hentry⟩))
    rw [hfilter, filter_keywordRules_of_keyword hmem, filter_tokenRules_of_keyword htokens hentry]
    exact ⟨_, rfl, rfl⟩
  category := by
    intro name hname
    obtain ⟨id, hfind, hentry, _⟩ := exists_tokenIdentifier hname
    obtain ⟨tokens, htokens, hfilter⟩ :=
      filter_returns_eq hs (not_mem_builtin_of_mem (mem_identifiers.mpr ⟨_, hentry⟩))
    rw [symbols_of_synthesize hs]
    refine ⟨id, hfind, ?_⟩
    rw [hfilter, filter_keywordRules_of_token hentry, List.nil_append]
    exact filter_tokenRules_of_token htokens hentry
  returns_last := by
    intro r hr token
    exact not_emit_mem_dropLast ((mem_rules_iff hs).mp hr)

/-- With a keyword and a token category that are declared twice. -/
theorem terminals_agree_repeated : ∃ s,
    synthesize exampleGrammar { name := "example" } flexTranslator = .ok s ∧
    TerminalsAgree exampleGrammar flexTranslator s :=
  ⟨_, rfl, terminals_agree rfl⟩

end FlexSynth
