import FlexSynth.Proofs.Scan.Rules

/-!
# The rules of a start state

A start state has few of the rules of a scanner. The rules of keywords, token categories,
built-in categories and the last rules are active in the initial state only. So outside of
it there are rules of comments and literals (`rulesIn_of_ne_initial`), and inside of a
literal there are rules of literals and no others (`rulesIn_of_mem_literals`).
-/

namespace FlexSynth

open Partial

/-- The rules are active in the initial state and nowhere else. -/
def OnlyInitial (rules : List Rule) : Prop :=
  ∀ r ∈ rules, r.states = [StartState.initial]

theorem filter_activeIn_initial {rules : List Rule} (h : OnlyInitial rules) :
    rules.filter (Rule.activeIn StartState.initial) = rules := by
  rw [List.filter_eq_self]
  intro r hr
  unfold Rule.activeIn
  rw [h r hr]
  exact List.contains_iff_mem.mpr List.mem_cons_self

theorem filter_activeIn_of_ne {rules : List Rule} (h : OnlyInitial rules) {state : String}
    (hstate : state ≠ StartState.initial) : rules.filter (Rule.activeIn state) = [] := by
  rw [List.filter_eq_nil_iff]
  intro r hr hactive
  unfold Rule.activeIn at hactive
  rw [h r hr] at hactive
  exact hstate (List.mem_singleton.mp (List.contains_iff_mem.mp hactive))

section

variable {g : LexicalGrammar} {options : GeneratorOptions} {translate : Translator}
  {s : Synthesis} {r : Rule} {state : String}

theorem onlyInitial_keywordRules {symbols : SymbolTable} : OnlyInitial (keywordRules symbols) := by
  intro r hr
  obtain ⟨text, id, _, rfl⟩ := mem_keywordRules.mp hr
  rfl

theorem onlyInitial_tokens {symbols : SymbolTable} {tokens : List Rule}
    (htokens : List.Forall₂ (fun pragma r => tokenRule symbols translate pragma = .ok r)
      g.tokens tokens) : OnlyInitial tokens := by
  intro r hr
  obtain ⟨pragma, _, hrule⟩ := (mem_results_iff htokens).mp hr
  obtain ⟨pattern, _, rfl⟩ := tokenRule_eq_ok_iff.mp hrule
  rfl

theorem onlyInitial_categoryRules : OnlyInitial (categoryRules g) := by
  intro r hr
  obtain ⟨entry, _, _, rfl⟩ := mem_categoryRules.mp hr
  rfl

theorem onlyInitial_fallbackRules : OnlyInitial fallbackRules := by
  unfold OnlyInitial
  decide

/-- The rules of a scanner are those of its groups, which come from the grammar. -/
theorem groups_of_synthesize (hs : synthesize g options translate = .ok s) :
    List.Forall₂ (fun pragma r => tokenRule g.symbolTable translate pragma = .ok r)
      g.tokens s.groups.tokens ∧
    s.groups = ⟨keywordRules g.symbolTable, g.comments.rules, s.groups.tokens,
      literalRules g options.charLiteralErrors, categoryRules g⟩ ∧
    s.description.rules = s.groups.all := by
  obtain ⟨tokens, htokens, hgroups, hdescription, _⟩ := synthesize_eq_ok_iff.mp hs
  rw [hdescription, hgroups]
  exact ⟨htokens, rfl, rfl⟩

/-- Outside of the initial state there are rules of comments and literals only. -/
theorem rulesIn_of_ne_initial (hs : synthesize g options translate = .ok s)
    (hstate : state ≠ StartState.initial) :
    s.description.rulesIn state = g.comments.rules.filter (Rule.activeIn state) ++
      (literalRules g options.charLiteralErrors).filter (Rule.activeIn state) := by
  obtain ⟨htokens, hgroups, hrules⟩ := groups_of_synthesize hs
  unfold Description.rulesIn
  rw [hrules, hgroups]
  unfold RuleGroups.all
  simp only [List.filter_append, filter_activeIn_of_ne onlyInitial_keywordRules hstate,
    filter_activeIn_of_ne (onlyInitial_tokens htokens) hstate,
    filter_activeIn_of_ne onlyInitial_categoryRules hstate,
    filter_activeIn_of_ne onlyInitial_fallbackRules hstate, List.append_nil, List.nil_append]

/-- A comment rule is active in the initial state or in the state of its form. -/
theorem states_of_comment {forms : CommentForms} (hr : r ∈ forms.rules) :
    r.states = [StartState.initial] ∨ ∃ n, r.states = [commentState n] := by
  rcases mem_commentRules.mp hr with ⟨delimiter, _, rfl⟩ | ⟨form, n, _, hr⟩
  · exact .inl rfl
  · rcases mem_blockCommentRules.mp hr with rfl | rfl | rfl | rfl
    · exact .inl rfl
    · exact .inr ⟨n, rfl⟩
    · exact .inr ⟨n, rfl⟩
    · exact .inr ⟨n, rfl⟩

/-- Inside of literals there are rules of literals only. -/
theorem rulesIn_of_mem_literals (hs : synthesize g options translate = .ok s)
    (hstate : state ∈ StartState.literals) : s.description.rulesIn state =
      (literalRules g options.charLiteralErrors).filter (Rule.activeIn state) := by
  have hinitial : state ≠ StartState.initial := by
    rintro rfl
    exact absurd hstate (by decide)
  have hcomments : g.comments.rules.filter (Rule.activeIn state) = [] := by
    rw [List.filter_eq_nil_iff]
    intro r hr hactive
    unfold Rule.activeIn at hactive
    rcases states_of_comment hr with h | ⟨n, h⟩
    · rw [h] at hactive
      exact hinitial (List.mem_singleton.mp (List.contains_iff_mem.mp hactive))
    · rw [h] at hactive
      have hsame := List.mem_singleton.mp (List.contains_iff_mem.mp hactive)
      exact commentState_not_mem n (List.mem_cons_of_mem _ (hsame ▸ hstate))
  rw [rulesIn_of_ne_initial hs hinitial, hcomments, List.nil_append]

end

end FlexSynth
