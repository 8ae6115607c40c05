import FlexSynth.Proofs.Grammar.Loaded
import FlexSynth.Proofs.Scan.States
import FlexSynth.Proofs.Scan.Winner
import FlexSynth.Proofs.Terminals

/-!
# The order of the rules

In the initial state, the rules of a scanner compete in a fixed order: keywords,
comments, token categories, literals, built-in categories, white space and the rule for
errors. `initial_priority` says what the order achieves. A keyword is returned wherever
it is as long as the longest match, a token category wins ties against literals and
built-in categories and against later token categories, and a character is an error only
where nothing else matches.

A tie is decided by the place of a rule in the list, so a rule must not stand in two
groups of it. Rules of different groups differ in what they return
(`not_mem_symbolRules`).
-/

namespace FlexSynth

open Partial SymbolTable

/-- The last rule of every scanner. -/
def catchAllRule : Rule :=
  .ofState StartState.initial "." [.emit BuiltinToken.error]

section

variable {g : LexicalGrammar} {options : GeneratorOptions} {translate : Translator}
  {s : Synthesis} {r w : Rule} {rest : List Char}

/-! ## The groups of rules -/

/-- The rules of keywords, comments and token categories that are active in the initial
state. -/
def symbolRules (g : LexicalGrammar) (tokens : List Rule) : List Rule :=
  keywordRules g.symbolTable ++ g.comments.rules.filter (Rule.activeIn StartState.initial) ++ tokens

/-- The rules of literals and built-in categories that are active in the initial state. -/
def builtinRules (g : LexicalGrammar) (charErrors : Bool) : List Rule :=
  (literalRules g charErrors).filter (Rule.activeIn StartState.initial) ++ categoryRules g

theorem rulesIn_initial (hs : synthesize g options translate = .ok s) :
    s.description.rulesIn StartState.initial = symbolRules g s.groups.tokens ++
      (builtinRules g options.charLiteralErrors ++ fallbackRules) := by
  obtain ⟨htokens, hgroups, hrules⟩ := groups_of_synthesize hs
  unfold Description.rulesIn symbolRules builtinRules
  rw [hrules, hgroups]
  unfold RuleGroups.all
  simp only [List.filter_append, filter_activeIn_initial onlyInitial_keywordRules,
    filter_activeIn_initial (onlyInitial_tokens htokens),
    filter_activeIn_initial onlyInitial_categoryRules,
    filter_activeIn_initial onlyInitial_fallbackRules, List.append_assoc]

/-! ## No rule stands in two groups -/

/-- A rule that returns only built-in tokens, if any, is not the rule of a keyword. -/
theorem not_mem_keywordRules (h : ∀ token, r.Returns token → token ∈ BuiltinToken.all) :
    r ∉ keywordRules g.symbolTable := by
  intro hr
  obtain ⟨text, id, hmem, rfl⟩ := mem_keywordRules.mp hr
  exact not_mem_builtin_of_mem (mem_identifiers.mpr ⟨_, mem_keywords.mp hmem⟩)
    (h id (returns_keyword.mpr rfl))

/-- Nor is it the rule of a token category. -/
theorem not_mem_tokens (hs : synthesize g options translate = .ok s)
    (h : ∀ token, r.Returns token → token ∈ BuiltinToken.all) : r ∉ s.groups.tokens := by
  intro hr
  obtain ⟨pragma, hpragma, hrule⟩ := (mem_results_iff (groups_of_synthesize hs).1).mp hr
  obtain ⟨id, _, hmem, hid⟩ := exists_tokenIdentifier (mem_tokenNames hpragma)
  exact not_mem_builtin_of_mem (mem_identifiers.mpr ⟨_, hmem⟩)
    (h id ((returns_tokenRule hrule).mpr hid.symm))

/-- The rules that open a literal lead into one. -/
theorem exists_begin_of_literal {charErrors : Bool} (hr : r ∈ literalRules g charErrors)
    (hactive : r.activeIn StartState.initial = true) :
    ∃ state ∈ StartState.literals, .begin state ∈ r.actions :=
  forall_mem_literalRules (P := fun r => r.activeIn StartState.initial = true →
    ∃ state ∈ StartState.literals, .begin state ∈ r.actions) (by decide) (by decide) hr hactive

/-- No comment leads into a literal. -/
theorem not_mem_literals_of_comment {forms : CommentForms} (hr : r ∈ forms.rules) {state : String}
    (hbegin : .begin state ∈ r.actions) : state ∉ StartState.literals := by
  have hinitial : StartState.initial ∉ StartState.literals := by decide
  rcases mem_commentRules.mp hr with ⟨delimiter, _, rfl⟩ | ⟨form, n, _, hr⟩
  · cases List.mem_singleton.mp hbegin
  · rcases mem_blockCommentRules.mp hr with rfl | rfl | rfl | rfl
    · cases List.mem_singleton.mp hbegin
      exact fun h => commentState_not_mem n (List.mem_cons_of_mem _ h)
    · cases List.mem_singleton.mp hbegin
      exact hinitial
    · cases List.mem_singleton.mp hbegin
    · cases List.mem_singleton.mp hbegin

theorem exists_returns_of_category (hr : r ∈ categoryRules g) : ∃ token, r.Returns token := by
  obtain ⟨entry, _, _, rfl⟩ := mem_categoryRules.mp hr
  exact ⟨entry.token, List.mem_cons_of_mem _ List.mem_cons_self⟩

/-- The rules of literals and built-in categories are no rules of symbols or comments. -/
theorem not_mem_symbolRules {charErrors : Bool} (hs : synthesize g options translate = .ok s)
    (hr : r ∈ builtinRules g charErrors) : r ∉ symbolRules g s.groups.tokens := by
  have hbuiltin : ∀ token, r.Returns token → token ∈ BuiltinToken.all := by
    intro token hreturns
    rcases List.mem_append.mp hr with hliteral | hcategory
    · rcases returns_literal (List.mem_filter.mp hliteral).1 hreturns with rfl | ⟨c, _, rfl⟩
      · decide
      · exact c.token_mem_builtin
    · obtain ⟨c, _, rfl⟩ := returns_category hcategory hreturns
      exact c.token_mem_builtin
  unfold symbolRules
  rw [List.mem_append, List.mem_append]
  rintro ((hkeyword | hcomment) | htoken)
  · exact not_mem_keywordRules hbuiltin hkeyword
  · have hcomment := (List.mem_filter.mp hcomment).1
    rcases List.mem_append.mp hr with hliteral | hcategory
    · obtain ⟨hliteral, hactive⟩ := List.mem_filter.mp hliteral
      obtain ⟨state, hstate, hbegin⟩ := exists_begin_of_literal hliteral hactive
      exact not_mem_literals_of_comment hcomment hbegin hstate
    · obtain ⟨token, hreturns⟩ := exists_returns_of_category hcategory
      exact not_returns_comment hcomment hreturns
  · exact not_mem_tokens hs hbuiltin htoken

/-- The last rule stands nowhere else. -/
theorem catchAllRule_last (hs : synthesize g options translate = .ok s) :
    ∃ rules, s.description.rulesIn StartState.initial = rules ++ [catchAllRule] ∧
      catchAllRule ∉ rules := by
  have hbuiltin : ∀ token, catchAllRule.Returns token → token ∈ BuiltinToken.all := by
    intro token hreturns
    rw [returns_keyword.mp hreturns]
    decide
  refine ⟨symbolRules g s.groups.tokens ++ (builtinRules g options.charLiteralErrors ++
    [.ofState StartState.initial "[ \\t\\r\\n\\f]" [.skip "ignore white space."]]), ?_, ?_⟩
  · rw [rulesIn_initial hs]
    simp only [List.append_assoc]
    rfl
  · unfold symbolRules builtinRules
    simp only [List.mem_append]
    rintro (((hkeyword | hcomment) | htoken) | (hliteral | hcategory) | hspace)
    · exact not_mem_keywordRules hbuiltin hkeyword
    · exact not_returns_comment (List.mem_filter.mp hcomment).1 (returns_keyword.mpr rfl)
    · exact not_mem_tokens hs hbuiltin htoken
    · obtain ⟨hliteral, hactive⟩ := List.mem_filter.mp hliteral
      obtain ⟨state, _, hbegin⟩ := exists_begin_of_literal hliteral hactive
      cases List.mem_singleton.mp hbegin
    · obtain ⟨c, _, herror⟩ := returns_category hcategory (returns_keyword.mpr rfl)
      exact c.token_ne_error herror.symm
    · exact absurd hspace (by decide)

/-! ## Keywords -/

/-- A keyword has one identifier. -/
theorem keyword_unique {text id id' : String} (h : (text, id) ∈ g.symbolTable.keywords)
    (h' : (text, id') ∈ g.symbolTable.keywords) : id = id' := by
  have hfind := find?_number_eq_some_iff.mpr (mem_keywords.mp h)
  have hfind' := find?_number_eq_some_iff.mpr (mem_keywords.mp h')
  exact Option.some.inj (hfind.symm.trans hfind')

theorem keyword_ne_empty (hg : g.WellFormed) {text id : String}
    (h : (text, id) ∈ g.symbolTable.keywords) : text ≠ "" := by
  rcases mem_symbolsOf.mp (mem_symbolsOf_of_mem (mem_keywords.mp h)) with
    ⟨_, hmem, hsame⟩ | ⟨_, _, hsame⟩
  · cases hsame
    exact hg.keyword_ne_empty text hmem
  · cases hsame

/-- Where the longest match is a keyword, the rule of the keyword wins. -/
theorem actions_of_winner (hs : synthesize g options translate = .ok s) {text id : String}
    (hmem : (text, id) ∈ g.symbolTable.keywords)
    (hwinner : s.description.winner? StartState.initial rest = some w)
    (htext : rest.take (s.description.matchLength rest w) = text.toList) :
    w.actions = [.emit id] := by
  have hfirst := Description.winner?_eq_some_iff_firstLongest.mp hwinner
  have hpos := hfirst.pos
  rw [rulesIn_initial hs] at hfirst
  unfold symbolRules at hfirst
  simp only [List.append_assoc] at hfirst
  -- The rule of the keyword matches as much, so the winner is not behind all keywords.
  have hw : w ∈ keywordRules g.symbolTable := by
    by_contra hnot
    have hlt := hfirst.lt_of_not_mem hnot (mem_keywordRules.mpr ⟨text, id, hmem, rfl⟩)
    rw [Description.matchLength_of_prefix (language_cString hs rfl)
      (htext ▸ List.take_prefix _ rest), ← htext, List.length_take,
      min_eq_left Description.matchLength_le_length] at hlt
    exact Nat.lt_irrefl _ hlt
  obtain ⟨text', id', hmem', rfl⟩ := mem_keywordRules.mp hw
  have htext' := Description.take_matchLength_of_literal (language_cString hs rfl) hpos
  rw [htext] at htext'
  cases String.toList_inj.mp htext'
  rw [keyword_unique hmem' hmem]
  rfl

theorem step_keyword (hs : synthesize g options translate = .ok s) {text id : String}
    (hmem : (text, id) ∈ g.symbolTable.keywords)
    (hwinner : s.description.winner? StartState.initial rest = some w)
    (htext : rest.take (s.description.matchLength rest w) = text.toList) (b : Buffers) :
    s.description.step ⟨StartState.initial, rest, b⟩ =
      .moved ⟨w, text.toList, some ⟨id, none, text.toList⟩⟩
        ⟨StartState.initial, rest.drop text.toList.length, b⟩ :=
  Description.step_of_winner? (e := ⟨StartState.initial, b, some ⟨id, none, text.toList⟩⟩)
    hwinner htext (by rw [actions_of_winner hs hmem hwinner htext]; rfl)

/-- A keyword that is the whole input is the longest match. -/
theorem exists_winner_keyword (hs : synthesize g options translate = .ok s) {text id : String}
    (hmem : (text, id) ∈ g.symbolTable.keywords) (hne : text ≠ "") :
    ∃ w, s.description.winner? StartState.initial text.toList = some w ∧
      text.toList.take (s.description.matchLength text.toList w) = text.toList := by
  have hr : .ofState StartState.initial (Text.cString text) [.emit id] ∈
      s.description.rulesIn StartState.initial :=
    Description.mem_rulesIn.mpr ⟨(mem_rules_iff hs).mpr (.keyword hmem),
      List.contains_iff_mem.mpr List.mem_cons_self⟩
  have hlength : s.description.matchLength text.toList
      (.ofState StartState.initial (Text.cString text) [.emit id]) = text.toList.length :=
    Description.matchLength_of_prefix (language_cString hs rfl) List.prefix_rfl
  have hpos : 0 < text.toList.length := List.length_pos_iff.mpr (by simpa using hne)
  obtain ⟨w, hwinner⟩ := Description.winner?_isSome_of_pos hr (hlength ▸ hpos)
  have hle := (Description.winner?_eq_some_iff_firstLongest.mp hwinner).le hr
  rw [hlength] at hle
  exact ⟨w, hwinner, List.take_of_length_le hle⟩

/-- In the initial state, a scan stops at the end of the input. -/
theorem step_initial_nil (hs : synthesize g options translate = .ok s)
    (htranslate : translate.AvoidsEnd) (b : Buffers) :
    s.description.step ⟨StartState.initial, [], b⟩ = .ended := by
  rw [Description.step_eq_ended_iff]
  refine ⟨?_, rfl⟩
  cases hselect : s.description.select? ⟨StartState.initial, [], b⟩ with
  | none => rfl
  | some choice =>
    obtain ⟨r, length⟩ := choice
    have hselected := Description.selected_of_select? hselect
    have hend := hselected.atEnd.mpr rfl
    have hliteral := ((mem_rules_iff hs).mp hselected.mem).literal_of_endOfInput htranslate hend
    have hclosed := closesAtEnd_of_mem hliteral hend StartState.initial
      (List.contains_iff_mem.mp hselected.active)
    exact absurd hclosed.1 (by decide)

/-! ## Token categories -/

/-- The rule of a token category is not the rule of a keyword or of a comment. -/
theorem token_not_mem {pragma : TokenPragma} (hr : tokenRule g.symbolTable translate pragma = .ok r) :
    r ∉ keywordRules g.symbolTable ∧ r ∉ g.comments.rules := by
  refine ⟨?_, fun hcomment => not_returns_comment hcomment ((returns_tokenRule hr).mpr rfl)⟩
  obtain ⟨pattern, _, rfl⟩ := tokenRule_eq_ok_iff.mp hr
  intro hkeyword
  obtain ⟨text, id, _, hsame⟩ := mem_keywordRules.mp hkeyword
  cases congrArg Rule.actions hsame

/-- The token category that wins has a longer match than all earlier ones. -/
theorem exists_pragma_of_winner (hs : synthesize g options translate = .ok s)
    (hwinner : s.description.winner? StartState.initial rest = some w)
    (hw : w ∈ s.groups.tokens) :
    ∃ before pragma after, g.tokens = before ++ pragma :: after ∧
      tokenRule g.symbolTable translate pragma = .ok w ∧
      ∀ earlier ∈ before, ∀ r, tokenRule g.symbolTable translate earlier = .ok r →
        s.description.matchLength rest r < s.description.matchLength rest w := by
  have hfirst := Description.winner?_eq_some_iff_firstLongest.mp hwinner
  have htokens := (groups_of_synthesize hs).1
  obtain ⟨first, later, hsplit, hnot⟩ := List.eq_append_cons_of_mem hw
  rw [hsplit] at htokens
  obtain ⟨pragma, after, hrule, _, hcons⟩ :=
    List.forall₂_cons_right_iff.mp (List.forall₂_drop_append _ _ _ htokens)
  have hbefore := List.forall₂_take_append _ _ _ htokens
  refine ⟨g.tokens.take first.length, pragma, after, ?_, hrule, ?_⟩
  · rw [← hcons, List.take_append_drop]
  · intro earlier hearlier r hr
    have hrules : s.description.rulesIn StartState.initial =
        (keywordRules g.symbolTable ++
          g.comments.rules.filter (Rule.activeIn StartState.initial) ++ first) ++
        (w :: later ++ (builtinRules g options.charLiteralErrors ++ fallbackRules)) := by
      rw [rulesIn_initial hs]
      unfold symbolRules
      rw [hsplit]
      simp only [List.append_assoc]
    rw [hrules] at hfirst
    refine hfirst.lt_of_not_mem ?_ ?_
    · obtain ⟨hkeyword, hcomment⟩ := token_not_mem hrule
      simp only [List.mem_append, not_or]
      exact ⟨⟨hkeyword, fun h => hcomment (List.mem_filter.mp h).1⟩, hnot⟩
    · obtain ⟨r', hr', hsame⟩ := exists_result hbefore hearlier
      rw [hr] at hsame
      cases hsame
      exact List.mem_append_right _ hr'

/-- Literals and built-in categories win only with a longer match than all token
categories. -/
theorem token_lt_of_winner (hs : synthesize g options translate = .ok s)
    (hwinner : s.description.winner? StartState.initial rest = some w)
    (hw : w ∈ s.groups.literals ∨ w ∈ s.groups.categories) {pragma : TokenPragma}
    (hpragma : pragma ∈ g.tokens) (hr : tokenRule g.symbolTable translate pragma = .ok r) :
    s.description.matchLength rest r < s.description.matchLength rest w := by
  have hfirst := Description.winner?_eq_some_iff_firstLongest.mp hwinner
  obtain ⟨htokens, hgroups, _⟩ := groups_of_synthesize hs
  have hactive := (Description.mem_rulesIn.mp hfirst.mem).2
  have hbuiltin : w ∈ builtinRules g options.charLiteralErrors := by
    rw [hgroups] at hw
    exact List.mem_append.mpr (hw.imp_left fun h => List.mem_filter.mpr ⟨h, hactive⟩)
  rw [rulesIn_initial hs] at hfirst
  refine hfirst.lt_of_not_mem (not_mem_symbolRules hs hbuiltin) ?_
  exact List.mem_append_right _ ((mem_results_iff htokens).mpr ⟨pragma, hpragma, hr⟩)

/-! ## Errors -/

theorem matchLength_catchAllRule (hs : synthesize g options translate = .ok s) :
    s.description.matchLength rest catchAllRule ≤ 1 := by
  refine Description.matchLength_le_one_of_isSingle ?_
  rw [isSingle_of_synthesize hs]
  decide

/-- Wherever input is left, some rule wins. -/
theorem exists_winner_initial (hs : synthesize g options translate = .ok s) (hrest : rest ≠ []) :
    ∃ w, s.description.winner? StartState.initial rest = some w ∧
      s.description.FirstLongest rest (s.description.rulesIn StartState.initial) w := by
  obtain ⟨c, rest, rfl⟩ := List.exists_cons_of_ne_nil hrest
  obtain ⟨r, hr, hmatch⟩ := matches_initial hs c
  obtain ⟨w, hwinner⟩ := Description.winner?_isSome_of_pos hr (Description.matchLength_pos hmatch)
  exact ⟨w, hwinner, Description.winner?_eq_some_iff_firstLongest.mp hwinner⟩

/-- The last rule wins where no other rule matches. -/
theorem winner?_eq_catchAllRule_iff (hs : synthesize g options translate = .ok s)
    (hrest : rest ≠ []) :
    s.description.winner? StartState.initial rest = some catchAllRule ↔
      ∀ r ∈ s.description.rulesIn StartState.initial, r ≠ catchAllRule →
        s.description.matchLength rest r = 0 := by
  constructor
  · intro hwinner r hr hne
    have hfirst := Description.winner?_eq_some_iff_firstLongest.mp hwinner
    obtain ⟨rules, hrules, hnot⟩ := catchAllRule_last hs
    rw [hrules] at hfirst hr
    have hr : r ∈ rules := (List.mem_append.mp hr).resolve_right
      fun h => hne (List.mem_singleton.mp h)
    have hlt := hfirst.lt_of_not_mem hnot hr
    have hle : s.description.matchLength rest catchAllRule ≤ 1 := matchLength_catchAllRule hs
    omega
  · intro hnone
    obtain ⟨w, hwinner, hfirst⟩ := exists_winner_initial hs hrest
    have hw : w = catchAllRule := by
      by_contra hne
      have hpos := hfirst.pos
      rw [hnone w hfirst.mem hne] at hpos
      exact Nat.lt_irrefl 0 hpos
    rw [hwinner, hw]

theorem step_catchAllRule (hs : synthesize g options translate = .ok s) {c : Char}
    (hwinner : s.description.winner? StartState.initial (c :: rest) = some catchAllRule)
    (b : Buffers) :
    s.description.step ⟨StartState.initial, c :: rest, b⟩ =
      .moved ⟨catchAllRule, [c], some ⟨BuiltinToken.error, none, [c]⟩⟩
        ⟨StartState.initial, rest, b⟩ := by
  have hpos := (Description.winner?_eq_some_iff_firstLongest.mp hwinner).pos
  have hone := le_antisymm (matchLength_catchAllRule hs) hpos
  exact Description.step_of_winner?
    (e := ⟨StartState.initial, b, some ⟨BuiltinToken.error, none, [c]⟩⟩) hwinner
    (by rw [hone]; rfl) rfl

end

/-! ## Priority -/

/-- How the rules of the initial state compete. -/
structure InitialPriority (g : LexicalGrammar) (translate : Translator) (s : Synthesis) : Prop where
  /-- Wherever input is left, the first rule with the longest match wins. -/
  exists_winner : ∀ rest ≠ [], ∃ w, s.description.winner? StartState.initial rest = some w ∧
    s.description.FirstLongest rest (s.description.rulesIn StartState.initial) w
  /-- Where the longest match is a keyword, the identifier of the keyword is returned. -/
  keyword : ∀ text id, (text, id) ∈ s.symbols.keywords → ∀ rest w,
    s.description.winner? StartState.initial rest = some w →
    rest.take (s.description.matchLength rest w) = text.toList → ∀ b,
    s.description.step ⟨StartState.initial, rest, b⟩ =
      .moved ⟨w, text.toList, some ⟨id, none, text.toList⟩⟩
        ⟨StartState.initial, rest.drop text.toList.length, b⟩
  /-- Scanning a keyword alone returns its identifier, and then the scan is over, as long as
  no expression is written as the pattern for the end of the input. None is by
  `flexTranslator` (`flexTranslator_avoidsEnd`). -/
  keyword_alone : ∀ text id, (text, id) ∈ s.symbols.keywords →
    ∃ f, Run s.description (.initial text.toList) [f] (.initial []) ∧
      f.emitted = some ⟨id, none, text.toList⟩ ∧
      (translate.AvoidsEnd → s.description.step (.initial []) = .ended)
  /-- A token category loses to a literal or a built-in category only by length. -/
  token : ∀ rest w, s.description.winner? StartState.initial rest = some w →
    w ∈ s.groups.literals ∨ w ∈ s.groups.categories → ∀ pragma ∈ g.tokens, ∀ r,
    tokenRule s.symbols translate pragma = .ok r →
    s.description.matchLength rest r < s.description.matchLength rest w
  /-- A token category loses to a later one only by length. -/
  earlier : ∀ rest w, s.description.winner? StartState.initial rest = some w →
    w ∈ s.groups.tokens → ∃ before pragma after, g.tokens = before ++ pragma :: after ∧
      tokenRule s.symbols translate pragma = .ok w ∧
      ∀ p ∈ before, ∀ r, tokenRule s.symbols translate p = .ok r →
        s.description.matchLength rest r < s.description.matchLength rest w
  /-- The last rule wins exactly where no other rule matches. -/
  catchAll : ∀ rest ≠ [], s.description.winner? StartState.initial rest = some catchAllRule ↔
    ∀ r ∈ s.description.rulesIn StartState.initial, r ≠ catchAllRule →
      s.description.matchLength rest r = 0
  /-- It returns an error for one character. -/
  error : ∀ c rest, s.description.winner? StartState.initial (c :: rest) = some catchAllRule →
    ∀ b, s.description.step ⟨StartState.initial, c :: rest, b⟩ =
      .moved ⟨catchAllRule, [c], some ⟨BuiltinToken.error, none, [c]⟩⟩ ⟨StartState.initial, rest, b⟩

/-- The rules of the initial state compete as their order says, whatever the grammar. -/
theorem initial_priority {document : Json} {filename : String} {g : LexicalGrammar}
    {options : GeneratorOptions} {translate : Translator} {s : Synthesis}
    (hg : LexicalGrammar.ofJson document filename = .ok g)
    (hs : synthesize g options translate = .ok s) : InitialPriority g translate s where
  exists_winner := fun _ hrest => exists_winner_initial hs hrest
  keyword := by
    intro text id hmem rest w hwinner htext b
    rw [symbols_of_synthesize hs] at hmem
    exact step_keyword hs hmem hwinner htext b
  keyword_alone := by
    intro text id hmem
    rw [symbols_of_synthesize hs] at hmem
    obtain ⟨w, hwinner, htext⟩ :=
      exists_winner_keyword hs hmem (keyword_ne_empty (wellFormed_of_ofJson hg) hmem)
    have hstep := step_keyword hs hmem hwinner htext {}
    rw [List.drop_length] at hstep
    exact ⟨_, .step hstep (.refl _), rfl, fun htranslate => step_initial_nil hs htranslate {}⟩
  token := by
    intro rest w hwinner hw pragma hpragma r hr
    rw [symbols_of_synthesize hs] at hr
    exact token_lt_of_winner hs hwinner hw hpragma hr
  earlier := by
    intro rest w hwinner hw
    rw [symbols_of_synthesize hs]
    exact exists_pragma_of_winner hs hwinner hw
  catchAll := fun _ hrest => winner?_eq_catchAllRule_iff hs hrest
  error := fun _ _ hwinner b => step_catchAllRule hs hwinner b

/-- With a keyword that is also an identifier, and two rules for one token category. -/
theorem initial_priority_overlapping :
    LexicalGrammar.ofJson exampleDocument "example.json" = .ok exampleGrammar ∧
    ∃ s, synthesize exampleGrammar { name := "example" } flexTranslator = .ok s ∧
      InitialPriority exampleGrammar flexTranslator s :=
  ⟨ofJson_exampleDocument, _, rfl, initial_priority ofJson_exampleDocument rfl⟩

end FlexSynth
