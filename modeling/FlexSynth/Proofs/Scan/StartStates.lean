import FlexSynth.Proofs.Scan.BlockComment

/-!
# Start states

The start states of a scanner are closed and separate (`states_separate`). Every state that a
rule is active in or goes to is declared, and none is declared twice. A rule of the initial
state is active in no other state. Each form of block comments has a state that nothing but the
form knows: one rule leads into it, and the three rules that are active in it belong to the
form. The states of literals have rules just when their category is in use.

The names of the comment states are made up, so this needs two facts about them: they are
different from each other (`commentState_injective`) and from the fixed names
(`commentState_not_mem`).
-/

namespace FlexSynth

open Partial

/-! ## States in rules -/

def Action.target? : Action → Option String
  | .begin state => some state
  | _ => none

/-- Whether the rule makes a state the current one. -/
def Rule.Enters (r : Rule) (state : String) : Prop :=
  .begin state ∈ r.actions

instance (r : Rule) (state : String) : Decidable (r.Enters state) :=
  inferInstanceAs (Decidable (.begin state ∈ r.actions))

/-- Whether the rule is active in a state or enters it. -/
def Rule.Names (r : Rule) (state : String) : Prop :=
  state ∈ r.states ∨ r.Enters state

/-- The states in which a category collects a literal. -/
def Category.literalStates : Category → List String
  | .string => [StartState.string, StartState.stringEscape]
  | .char => [StartState.char, StartState.charEscape, StartState.charEnd]
  | .double | .integer | .ident => []

section

variable {g : LexicalGrammar} {options : GeneratorOptions} {translate : Translator}
  {s : Synthesis} {r : Rule} {state : String} {form : BlockForm} {n : Nat}

/-- The rules know no state but the initial one and those of literals. -/
def KnowFixedStates (rules : List Rule) : Prop :=
  ∀ r ∈ rules, ∀ state, r.Names state → state ∈ StartState.initial :: StartState.literals

theorem KnowFixedStates.append {rules more : List Rule} (h : KnowFixedStates rules)
    (hmore : KnowFixedStates more) : KnowFixedStates (rules ++ more) := by
  intro r hr
  rcases List.mem_append.mp hr with hr | hr
  · exact h r hr
  · exact hmore r hr

theorem OnlyInitial.knowFixedStates {rules : List Rule} (h : OnlyInitial rules)
    (hnone : ∀ r ∈ rules, ∀ a ∈ r.actions, a.target? = none) : KnowFixedStates rules := by
  rintro r hr state (hmem | henters)
  · rw [h r hr, List.mem_singleton] at hmem
    exact hmem ▸ List.mem_cons_self
  · cases hnone r hr _ henters

theorem knowFixedStates_keywordRules {symbols : SymbolTable} :
    KnowFixedStates (keywordRules symbols) := by
  refine onlyInitial_keywordRules.knowFixedStates ?_
  intro r hr
  obtain ⟨text, id, _, rfl⟩ := mem_keywordRules.mp hr
  simp [Rule.ofState, Action.target?]

theorem knowFixedStates_tokens {symbols : SymbolTable} {tokens : List Rule}
    (htokens : List.Forall₂ (fun pragma r => tokenRule symbols translate pragma = .ok r)
      g.tokens tokens) : KnowFixedStates tokens := by
  refine (onlyInitial_tokens htokens).knowFixedStates ?_
  intro r hr
  obtain ⟨pragma, _, hrule⟩ := exists_source htokens hr
  obtain ⟨pattern, _, rfl⟩ := tokenRule_eq_ok_iff.mp hrule
  simp [Rule.ofState, Action.target?]

theorem knowFixedStates_categoryRules : KnowFixedStates (categoryRules g) := by
  refine onlyInitial_categoryRules.knowFixedStates ?_
  intro r hr
  obtain ⟨entry, _, _, rfl⟩ := mem_categoryRules.mp hr
  simp [CategoryRule.rule, Rule.ofState, Action.target?]

theorem knowFixedStates_literalRules {charErrors : Bool} :
    KnowFixedStates (literalRules g charErrors) := by
  intro r hr state hnames
  have hrules := forall_mem_literalRules (P := fun r =>
    (∀ state ∈ r.states, state ∈ StartState.initial :: StartState.literals) ∧
    ∀ a ∈ r.actions, ∀ state ∈ a.target?, state ∈ StartState.initial :: StartState.literals)
    (by decide) (by decide) hr
  rcases hnames with hmem | henters
  · exact hrules.1 state hmem
  · exact hrules.2 _ henters state rfl

/-- All rules but those of comments know the fixed states only. -/
theorem exists_rules_around_comments (hs : synthesize g options translate = .ok s) :
    ∃ before after, s.description.rules = before ++ g.comments.rules ++ after ∧
      KnowFixedStates before ∧ KnowFixedStates after := by
  obtain ⟨tokens, htokens, hrules⟩ := rules_of_synthesize hs
  have hfallback : KnowFixedStates fallbackRules :=
    onlyInitial_fallbackRules.knowFixedStates (by decide)
  refine ⟨keywordRules g.symbolTable, tokens ++ (literalRules g options.charLiteralErrors ++
    (categoryRules g ++ fallbackRules)), ?_, knowFixedStates_keywordRules, ?_⟩
  · rw [hrules]
    simp only [List.append_assoc]
  · exact (knowFixedStates_tokens htokens).append
      (knowFixedStates_literalRules.append (knowFixedStates_categoryRules.append hfallback))

theorem names_of_blockComment {state' : String} (hr : r ∈ blockCommentRules form state')
    (hnames : r.Names state) : state = StartState.initial ∨ state = state' := by
  rcases mem_blockCommentRules.mp hr with rfl | rfl | rfl | rfl
  · simpa [Rule.Names, Rule.Enters] using hnames
  · simpa [Rule.Names, Rule.Enters, Rule.ofState, or_comm] using hnames
  · exact .inr (by simpa [Rule.Names, Rule.Enters, Rule.ofState] using hnames)
  · exact .inr (by simpa [Rule.Names, Rule.Enters, Rule.ofState] using hnames)

theorem names_of_comment {forms : CommentForms} (hr : r ∈ forms.rules) (hnames : r.Names state) :
    state = StartState.initial ∨ state ∈ forms.states := by
  rcases mem_commentRules.mp hr with ⟨delimiter, _, rfl⟩ | ⟨form, n, hform, hr⟩
  · exact .inl (by simpa [Rule.Names, Rule.Enters, lineCommentRule] using hnames)
  · exact (names_of_blockComment hr hnames).imp_right fun h =>
      mem_commentStates.mpr ⟨form, n, hform, h⟩

/-- A rule that is active in the initial state is active nowhere else. -/
theorem RuleOrigin.states_eq (horigin : RuleOrigin g options translate r)
    (hactive : StartState.initial ∈ r.states) : r.states = [StartState.initial] := by
  cases horigin with
  | keyword _ => rfl
  | comment hr =>
    rcases states_of_comment hr with h | ⟨n, h⟩
    · exact h
    · rw [h] at hactive
      exact absurd (List.mem_singleton.mp hactive).symm (commentState_ne_initial n)
  | token _ hr =>
    obtain ⟨pattern, _, rfl⟩ := tokenRule_eq_ok_iff.mp hr
    rfl
  | literal hr =>
    exact forall_mem_literalRules (P := fun r => StartState.initial ∈ r.states →
      r.states = [StartState.initial]) (by decide) (by decide) hr hactive
  | category _ _ => rfl
  | fallback hr => exact onlyInitial_fallbackRules r hr

/-! ## Declared states -/

theorem startStates_of_synthesize (hs : synthesize g options translate = .ok s) :
    s.description.startStates =
      StartState.initial :: StartState.literals ++ g.comments.states := by
  obtain ⟨_, _, _, hdescription, _⟩ := synthesize_eq_ok_iff.mp hs
  rw [hdescription]
  rfl

theorem nodup_startStates (forms : CommentForms) :
    (StartState.initial :: StartState.literals ++ forms.states).Nodup := by
  rw [List.nodup_append]
  refine ⟨by decide, ?_, ?_⟩
  · exact List.nodup_range.map fun _ _ => commentState_injective
  · rintro fixed hfixed state hstate rfl
    obtain ⟨_, n, _, rfl⟩ := mem_commentStates.mp hstate
    exact commentState_not_mem n hfixed

/-- Rules stay within the declared states. -/
theorem mem_startStates_of_names (hs : synthesize g options translate = .ok s)
    (hr : r ∈ s.description.rules) (hnames : r.Names state) :
    state ∈ s.description.startStates := by
  obtain ⟨before, after, hrules, hbefore, hafter⟩ := exists_rules_around_comments hs
  rw [startStates_of_synthesize hs, List.mem_append]
  rw [hrules, List.mem_append, List.mem_append] at hr
  rcases hr with (hr | hr) | hr
  · exact .inl (hbefore r hr state hnames)
  · rcases names_of_comment hr hnames with rfl | hstate
    · exact .inl List.mem_cons_self
    · exact .inr hstate
  · exact .inl (hafter r hr state hnames)

/-- The declared comment states are those that comment rules know. -/
theorem mem_states_iff {forms : CommentForms} : state ∈ forms.states ↔
    state ≠ StartState.initial ∧ ∃ r ∈ forms.rules, r.Names state := by
  constructor
  · intro hstate
    obtain ⟨form, n, hform, rfl⟩ := mem_commentStates.mp hstate
    refine ⟨commentState_ne_initial n, openingRule form (commentState n), ?_, ?_⟩
    · exact mem_commentRules.mpr (.inr ⟨form, n, hform, List.mem_cons_self⟩)
    · exact .inr List.mem_cons_self
  · rintro ⟨hne, r, hr, hnames⟩
    exact (names_of_comment hr hnames).resolve_left hne

theorem length_states (forms : CommentForms) : forms.states.length = forms.block.length := by
  unfold CommentForms.states commentStates
  rw [List.length_map, List.length_range]

theorem getElem?_states {forms : CommentForms} (hform : forms.block[n]? = some form) :
    forms.states[n]? = some (commentState n) := by
  have hlength : n < forms.block.length := (List.getElem?_eq_some_iff.mp hform).1
  unfold CommentForms.states commentStates
  rw [List.getElem?_map, List.getElem?_range hlength]
  rfl

/-! ## The state of a form -/

theorem filter_enters_blockCommentRules (form : BlockForm) (m n : Nat) :
    (blockCommentRules form (commentState m)).filter (fun r => r.Enters (commentState n)) =
      if m = n then [openingRule form (commentState n)] else [] := by
  have hinitial := commentState_ne_initial n
  rw [blockCommentRules_eq]
  unfold openingRule closingRule skippingRules Rule.ofState
  split
  · next h => simp [h, Rule.Enters, hinitial]
  · next h =>
    have hne : commentState n ≠ commentState m := fun hsame => h (commentState_injective hsame).symm
    simp [Rule.Enters, hinitial, hne]

/-- Only the opening rule of a form leads into its state. -/
theorem filter_enters_commentState (hs : synthesize g options translate = .ok s)
    (hform : g.comments.block[n]? = some form) :
    s.description.rules.filter (fun r => r.Enters (commentState n)) =
      [openingRule form (commentState n)] := by
  obtain ⟨before, after, hrules, hbefore, hafter⟩ := exists_rules_around_comments hs
  have hnone {rules : List Rule} (h : KnowFixedStates rules) :
      rules.filter (fun r => r.Enters (commentState n)) = [] := by
    rw [List.filter_eq_nil_iff]
    intro r hr henters
    exact commentState_not_mem n (h r hr _ (.inr (of_decide_eq_true henters)))
  have hcomments : g.comments.rules.filter (fun r => r.Enters (commentState n)) =
      [openingRule form (commentState n)] := by
    rw [filter_commentRules_of_form hform, filter_enters_blockCommentRules, if_pos rfl]
    · intro delimiter
      simp [Rule.Enters, lineCommentRule]
    · intro other m hm
      rw [filter_enters_blockCommentRules, if_neg hm]
  rw [hrules, List.filter_append, List.filter_append, hnone hbefore, hcomments, hnone hafter,
    List.nil_append, List.append_nil]

/-- The state belongs to a form of block comments: one rule leads into it, from the initial
state, and three rules are active in it. The first one goes back, the others stay. -/
structure OwnState (d : Description) (form : BlockForm) (state : String) : Prop where
  entered : ∃ opening, d.rules.filter (fun r => r.Enters state) = [opening] ∧
    opening.states = [StartState.initial] ∧ opening.pattern = Text.cString form.start
  active : ∃ closing dot newline, d.rulesIn state = [closing, dot, newline] ∧
    closing.pattern = Text.cString form.stop ∧ closing.actions = [.begin StartState.initial] ∧
    ∀ r ∈ [dot, newline], ∀ target, ¬r.Enters target

theorem ownState_commentState (hs : synthesize g options translate = .ok s)
    (hform : g.comments.block[n]? = some form) :
    OwnState s.description form (commentState n) where
  entered := ⟨_, filter_enters_commentState hs hform, rfl, rfl⟩
  active := by
    refine ⟨_, _, _, rulesIn_commentState hs hform, rfl, rfl, ?_⟩
    intro r hr target henters
    rw [Rule.Enters, actions_of_mem_skippingRules hr] at henters
    cases List.mem_singleton.mp henters

/-! ## The states of literals -/

theorem exists_category_of_mem_literals (hstate : state ∈ StartState.literals) :
    ∃ c : Category, state ∈ c.literalStates := by
  have hliterals : StartState.literals =
      Category.char.literalStates ++ Category.string.literalStates := rfl
  rw [hliterals, List.mem_append] at hstate
  exact hstate.elim (⟨_, ·⟩) (⟨_, ·⟩)

theorem mem_literals_of_category {c : Category} (hstate : state ∈ c.literalStates) :
    state ∈ StartState.literals := by
  have hall : ∀ c : Category, ∀ state ∈ c.literalStates, state ∈ StartState.literals := by
    intro c
    cases c <;> decide
  exact hall c state hstate

/-- The rules of a literal are active in states of its category. -/
theorem exists_literalRule_iff {charErrors : Bool} {c : Category}
    (hstate : state ∈ c.literalStates) :
    (∃ r ∈ literalRules g charErrors, state ∈ r.states) ↔ g.uses c = true := by
  have hstring : ∀ r ∈ stringLiteralRules BuiltinToken.string BuiltinToken.error,
      ∀ state ∈ r.states, state ∉ Category.char.literalStates := by decide
  have hchar : ∀ errors : Bool, ∀ r ∈ charRules BuiltinToken.char
      (if errors then some BuiltinToken.error else none),
      ∀ state ∈ r.states, state ∉ Category.string.literalStates := by decide
  simp only [mem_literalRules]
  cases c with
  | string =>
    have hall : ∀ state ∈ Category.string.literalStates,
        ∃ r ∈ stringLiteralRules BuiltinToken.string BuiltinToken.error, state ∈ r.states := by
      decide
    constructor
    · rintro ⟨r, ⟨huses, _⟩ | ⟨_, hr⟩, hactive⟩
      · exact huses
      · exact absurd hstate (hchar charErrors r hr state hactive)
    · intro huses
      obtain ⟨r, hr, hactive⟩ := hall state hstate
      exact ⟨r, .inl ⟨huses, hr⟩, hactive⟩
  | char =>
    have hall : ∀ errors : Bool, ∀ state ∈ Category.char.literalStates,
        ∃ r ∈ charRules BuiltinToken.char (if errors then some BuiltinToken.error else none),
          state ∈ r.states := by decide
    constructor
    · rintro ⟨r, ⟨_, hr⟩ | ⟨huses, _⟩, hactive⟩
      · exact absurd hstate (hstring r hr state hactive)
      · exact huses
    · intro huses
      obtain ⟨r, hr, hactive⟩ := hall charErrors state hstate
      exact ⟨r, .inr ⟨huses, hr⟩, hactive⟩
  | double | integer | ident => cases hstate

/-- Every state of a literal has rules just when its category is in use. -/
theorem exists_rule_iff_uses (hs : synthesize g options translate = .ok s) {c : Category}
    (hstate : state ∈ c.literalStates) :
    (∃ r ∈ s.description.rules, state ∈ r.states) ↔ g.uses c = true := by
  have hrules := rulesIn_of_mem_literals hs (mem_literals_of_category hstate)
  have hactive (r : Rule) : r.activeIn state = true ↔ state ∈ r.states := List.contains_iff_mem
  have hsame (r : Rule) : r ∈ s.description.rules ∧ state ∈ r.states ↔
      r ∈ literalRules g options.charLiteralErrors ∧ state ∈ r.states := by
    rw [← hactive, ← Description.mem_rulesIn, hrules, List.mem_filter]
  exact (exists_congr hsame).trans (exists_literalRule_iff hstate)

end

/-! ## Separation -/

/-- What the start states of a description are to its rules. -/
structure StatesSeparate (g : LexicalGrammar) (d : Description) : Prop where
  declared : d.startStates = StartState.initial :: StartState.literals ++ g.comments.states
  nodup : d.startStates.Nodup
  /-- The states that rules are active in or enter are declared. -/
  closed : ∀ r ∈ d.rules, ∀ state, r.Names state → state ∈ d.startStates
  /-- Comments are given the states that their rules know, as many as there are forms. -/
  comment_names : ∀ state, state ∈ g.comments.states ↔
    state ≠ StartState.initial ∧ ∃ r ∈ g.comments.rules, r.Names state
  comment_count : g.comments.states.length = g.comments.block.length
  /-- The state at the place of a form is its own. -/
  comment : ∀ (n : Nat) (form : BlockForm), g.comments.block[n]? = some form →
    ∃ state, g.comments.states[n]? = some state ∧ OwnState d form state
  /-- No rule is active both in the initial state and in another one. -/
  initial : ∀ r ∈ d.rules, StartState.initial ∈ r.states → r.states = [StartState.initial]
  /-- A state of literals has rules just when its category is in use. -/
  literal : ∀ state ∈ StartState.literals, ∃ c : Category, state ∈ c.literalStates ∧
    ((∃ r ∈ d.rules, state ∈ r.states) ↔ g.uses c = true)

/-- Start states are declared once, every state that a rule knows is declared, and those of
comments and literals are kept apart from each other and from the initial one. -/
theorem states_separate {g : LexicalGrammar} {options : GeneratorOptions}
    {translate : Translator} {s : Synthesis} (hs : synthesize g options translate = .ok s) :
    StatesSeparate g s.description where
  declared := startStates_of_synthesize hs
  nodup := by
    rw [startStates_of_synthesize hs]
    exact nodup_startStates g.comments
  closed := fun _ hr _ hnames => mem_startStates_of_names hs hr hnames
  comment_names := fun _ => mem_states_iff
  comment_count := length_states g.comments
  comment := fun n _ hform =>
    ⟨commentState n, getElem?_states hform, ownState_commentState hs hform⟩
  initial := fun _ hr hactive => ((mem_rules_iff hs).mp hr).states_eq hactive
  literal := by
    intro state hstate
    obtain ⟨c, hc⟩ := exists_category_of_mem_literals hstate
    exact ⟨c, hc, exists_rule_iff_uses hs hc⟩

/-- A grammar with two forms of block comments that start alike. -/
def twoFormsGrammar : LexicalGrammar :=
  { exampleGrammar with comments := ⟨["//"], [⟨"/*", "*/"⟩, ⟨"/*", "\n"⟩]⟩ }

theorem states_separate_two_forms : ∃ s,
    synthesize twoFormsGrammar { name := "example" } flexTranslator = .ok s ∧
    StatesSeparate twoFormsGrammar s.description := by
  obtain ⟨s, hs⟩ : ∃ s,
      synthesize twoFormsGrammar { name := "example" } flexTranslator = .ok s := ⟨_, rfl⟩
  exact ⟨s, hs, states_separate hs⟩

end FlexSynth
