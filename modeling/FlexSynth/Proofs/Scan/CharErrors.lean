import FlexSynth.Proofs.Scan.CharLiteral

/-!
# Errors of character literals as an addition

The rules of malformed character literals are only additions: a scan that gets through its
input without them, and ends outside of a character literal, takes the same steps with them
(`char_errors_conservative`).

The reason is where they stand. `Extends` says of two descriptions that the second has, in
each start state, the rules of the first and behind them only rules for single characters.
A rule that wins in the first description has a match of one character at least, and so it
wins in the second one. What is new in the second description happens where the first one
is stuck or stops.
-/

namespace FlexSynth

/-! ## The states of a scan -/

namespace Description

/-- The start states that a scan goes through in its first steps, with the one in which it
begins. -/
def statesFrom (d : Description) (c : Config) : Nat → List String
  | 0 => [c.state]
  | n + 1 => c.state :: match d.step c with
    | .moved _ next => d.statesFrom next n
    | _ => []

theorem statesFrom_succ {d : Description} {c next : Config} {f : Firing}
    (h : d.step c = .moved f next) (n : Nat) :
    d.statesFrom c (n + 1) = c.state :: d.statesFrom next n := by
  rw [statesFrom, h]

end Description

/-! ## Descriptions with more rules -/

/-- In each start state, `d'` has the rules of `d` and behind them rules for single
characters, these only in the states that are listed. -/
structure Extends (d d' : Description) (states : List String) : Prop where
  macros : d'.macros = d.macros
  rulesIn : ∀ state, ∃ added, d'.rulesIn state = d.rulesIn state ++ added ∧
    (∀ r ∈ added, d.isSingle r = true) ∧ (state ∉ states → added = [])

namespace Extends

variable {d d' : Description} {states : List String} {c next last : Config} {f : Firing}
  {fs : List Firing}

/-- A rule that is taken in `d` is taken in `d'`. -/
theorem select?_eq_some (h : Extends d d' states) {r : Rule} {length : Nat}
    (hselect : d.select? c = some (r, length)) : d'.select? c = some (r, length) := by
  obtain ⟨added, hrules, hsingle, _⟩ := h.rulesIn c.state
  have hlength := Description.matchLength_congr h.macros
  unfold Description.select? at *
  split at hselect
  · next hrest =>
    obtain ⟨first, hfirst, heq⟩ := Option.map_eq_some_iff.mp hselect
    rw [if_pos hrest, hrules, List.find?_append, hfirst, Option.some_or, ← heq]
    rfl
  · next hrest =>
    obtain ⟨w, hwinner, heq⟩ := Option.map_eq_some_iff.mp hselect
    have hfirst := Description.winner?_eq_some_iff_firstLongest.mp hwinner
    have hlonger : d.FirstLongest c.rest (d.rulesIn c.state ++ added) w :=
      hfirst.append fun r hr =>
        (Description.matchLength_le_one_of_isSingle (hsingle r hr)).trans hfirst.pos
    have hwinner' : d'.winner? c.state c.rest = some w := by
      rw [Description.winner?_eq_some_iff_firstLongest, hrules]
      unfold Description.FirstLongest at *
      rwa [hlength]
    rw [if_neg hrest, hwinner', hlength, ← heq]
    rfl

/-- Outside of the listed states, no rule is taken in `d'` where none is taken in `d`. -/
theorem select?_eq_none (h : Extends d d' states) (hstate : c.state ∉ states)
    (hselect : d.select? c = none) : d'.select? c = none := by
  obtain ⟨added, hrules, _, hnone⟩ := h.rulesIn c.state
  have hlength := Description.matchLength_congr h.macros
  rw [hnone hstate, List.append_nil] at hrules
  unfold Description.select? Description.winner? at *
  rwa [hrules, hlength]

theorem step_eq_moved (h : Extends d d' states) (hstep : d.step c = .moved f next) :
    d'.step c = .moved f next := by
  obtain ⟨r, length, e, hselect, hrest⟩ := Description.step_eq_moved_iff.mp hstep
  exact Description.step_eq_moved_iff.mpr ⟨r, length, e, h.select?_eq_some hselect, hrest⟩

theorem step_eq_ended (h : Extends d d' states) (hstate : c.state ∉ states)
    (hstep : d.step c = .ended) : d'.step c = .ended := by
  obtain ⟨hselect, hrest⟩ := Description.step_eq_ended_iff.mp hstep
  exact Description.step_eq_ended_iff.mpr ⟨h.select?_eq_none hstate hselect, hrest⟩

/-- Every run of `d` is a run of `d'`, through the same states. -/
theorem run (h : Extends d d' states) (hrun : Run d c fs last) :
    Run d' c fs last ∧ d'.statesFrom c fs.length = d.statesFrom c fs.length := by
  induction hrun with
  | refl c => exact ⟨.refl c, rfl⟩
  | @step c next last f fs hstep _ ih =>
    have hstep' := h.step_eq_moved hstep
    refine ⟨.step hstep' ih.1, ?_⟩
    rw [List.length_cons, Description.statesFrom_succ hstep', Description.statesFrom_succ hstep,
      ih.2]

end Extends

/-! ## With and without errors -/

section

variable {g : LexicalGrammar} {options : GeneratorOptions} {translate : Translator}
  {s s' : Synthesis}

/-- The rules of malformed character literals, if there are character literals. -/
def addedErrorRules (g : LexicalGrammar) : List Rule :=
  if g.uses .char then charErrorRules BuiltinToken.error else []

theorem literalRules_errors :
    literalRules g true = literalRules g false ++ addedErrorRules g := by
  unfold literalRules addedErrorRules
  rw [List.append_assoc]
  cases g.uses .char <;> simp [charRules]

/-- The scanner with errors has the same groups of rules, but for the literals. -/
theorem exists_synthesis_with_errors
    (hs : synthesize g { options with charLiteralErrors := false } translate = .ok s) :
    ∃ s', synthesize g { options with charLiteralErrors := true } translate = .ok s' ∧
      s'.groups = { s.groups with literals := s.groups.literals ++ addedErrorRules g } ∧
      s'.symbols = s.symbols ∧ s'.description.startStates = s.description.startStates := by
  obtain ⟨tokens, htokens, hgroups, hdescription, hsymbols⟩ := synthesize_eq_ok_iff.mp hs
  have hliterals : { s.groups with literals := s.groups.literals ++ addedErrorRules g } =
      ⟨keywordRules g.symbolTable, g.comments.rules, tokens, literalRules g true,
        categoryRules g⟩ := by
    rw [hgroups, literalRules_errors]
  refine ⟨⟨_, describe g { options with charLiteralErrors := true } _, g.symbolTable⟩,
    synthesize_eq_ok_iff.mpr ⟨tokens, htokens, rfl, rfl, rfl⟩, hliterals.symm, hsymbols.symm, ?_⟩
  rw [hdescription]
  rfl

theorem states_of_mem_addedErrorRules {r : Rule} (hr : r ∈ addedErrorRules g) :
    ∀ state ∈ r.states, state ∈ charStates := by
  have hstates : ∀ r ∈ charErrorRules BuiltinToken.error, ∀ state ∈ r.states,
      state ∈ charStates := by decide
  unfold addedErrorRules at hr
  split at hr
  · exact hstates r hr
  · cases hr

theorem isSingle_of_mem_addedErrorRules (hs : synthesize g options translate = .ok s) {r : Rule}
    (hr : r ∈ addedErrorRules g) : s.description.isSingle r = true := by
  have hpatterns : ∀ r ∈ charErrorRules BuiltinToken.error,
      (Flex.read standardMacros r.pattern).all Flex.Pattern.isSingle = true := by decide
  rw [isSingle_of_synthesize hs]
  unfold addedErrorRules at hr
  split at hr
  · exact hpatterns r hr
  · cases hr

theorem filter_addedErrorRules {state : String} (hstate : state ∉ charStates) :
    (addedErrorRules g).filter (Rule.activeIn state) = [] := by
  rw [List.filter_eq_nil_iff]
  intro r hr hactive
  exact hstate (states_of_mem_addedErrorRules hr state (List.contains_iff_mem.mp hactive))

/-- The rules for errors stand behind all rules that are active in the same states. -/
theorem rulesIn_with_errors
    (hs : synthesize g { options with charLiteralErrors := false } translate = .ok s)
    (hs' : synthesize g { options with charLiteralErrors := true } translate = .ok s')
    (hgroups : s'.groups = { s.groups with literals := s.groups.literals ++ addedErrorRules g })
    (state : String) : s'.description.rulesIn state =
      s.description.rulesIn state ++ (addedErrorRules g).filter (Rule.activeIn state) := by
  by_cases hstate : state ∈ charStates
  · have hinitial : state ≠ StartState.initial := by
      rintro rfl
      exact absurd hstate (by decide)
    rw [rulesIn_of_ne_initial hs hinitial, rulesIn_of_ne_initial hs' hinitial,
      literalRules_errors, List.filter_append, List.append_assoc]
  · obtain ⟨_, _, hrules⟩ := groups_of_synthesize hs
    obtain ⟨_, _, hrules'⟩ := groups_of_synthesize hs'
    unfold Description.rulesIn
    rw [hrules, hrules', hgroups]
    unfold RuleGroups.all
    simp only [List.filter_append, filter_addedErrorRules hstate, List.append_nil]

theorem extends_with_errors
    (hs : synthesize g { options with charLiteralErrors := false } translate = .ok s)
    (hs' : synthesize g { options with charLiteralErrors := true } translate = .ok s')
    (hgroups : s'.groups = { s.groups with literals := s.groups.literals ++ addedErrorRules g }) :
    Extends s.description s'.description charStates where
  macros := by rw [macros_of_synthesize hs, macros_of_synthesize hs']
  rulesIn := fun state => ⟨_, rulesIn_with_errors hs hs' hgroups state,
    fun _ hr => isSingle_of_mem_addedErrorRules hs (List.mem_filter.mp hr).1,
    filter_addedErrorRules⟩

end

/-- The scanner with errors for malformed character literals has the symbols and the start
states of the one without. Where a scan of the latter comes to its end outside of character
literals, the former takes the same steps, returns the same tokens and goes through the same
start states, and comes to its end there too. -/
theorem char_errors_conservative {g : LexicalGrammar} {options : GeneratorOptions}
    {translate : Translator} {s : Synthesis}
    (hs : synthesize g { options with charLiteralErrors := false } translate = .ok s) :
    ∃ s', synthesize g { options with charLiteralErrors := true } translate = .ok s' ∧
      s'.symbols = s.symbols ∧ s'.description.startStates = s.description.startStates ∧
      ∀ input fs last, Run s.description (.initial input) fs last →
        s.description.step last = .ended → last.state ∉ charStates →
        Run s'.description (.initial input) fs last ∧ s'.description.step last = .ended ∧
        s'.description.statesFrom (.initial input) fs.length =
          s.description.statesFrom (.initial input) fs.length := by
  obtain ⟨s', hs', hgroups, hsymbols, hstates⟩ := exists_synthesis_with_errors hs
  have hextends := extends_with_errors hs hs' hgroups
  refine ⟨s', hs', hsymbols, hstates, ?_⟩
  intro input fs last hrun hended hstate
  obtain ⟨hrun', hpassed⟩ := hextends.run hrun
  exact ⟨hrun', hextends.step_eq_ended hstate hended, hpassed⟩

/-- A well-formed literal, with and without errors. -/
theorem char_errors_conservative_closed : ∃ s s' fs,
    synthesize exampleGrammar { name := "example", charLiteralErrors := false } flexTranslator =
      .ok s ∧
    synthesize exampleGrammar { name := "example", charLiteralErrors := true } flexTranslator =
      .ok s' ∧
    Run s.description (.initial "'a'".toList) fs (.initial []) ∧
    Run s'.description (.initial "'a'".toList) fs (.initial []) ∧
    s'.description.step (.initial []) = .ended ∧
    fs.filterMap Firing.emitted = [charEmission 'a' ['a']] ∧
    s'.description.statesFrom (.initial "'a'".toList) fs.length =
      s.description.statesFrom (.initial "'a'".toList) fs.length := by
  have hopen : ∃ s, synthesize exampleGrammar { name := "example", charLiteralErrors := false }
        flexTranslator = .ok s ∧
      s.description.winner? StartState.initial "'a'".toList =
        some (.ofState StartState.initial "\"'\"" [.begin StartState.char]) ∧
      s.description.step (.initial []) = .ended :=
    ⟨_, rfl, by decide +kernel, by decide +kernel⟩
  obtain ⟨s, hs, hwinner, hended⟩ := hopen
  obtain ⟨u, hu, hopening⟩ := scans_char_opening (c := .initial "'a'".toList) hs hwinner
  cases hu
  obtain ⟨fs, hrun, hemitted⟩ := hopening.trans
    ((scans_char_plain hs rfl (by decide) (by decide)).trans (scans_char_closing hs rfl))
  obtain ⟨s', hs', _, _, hsame⟩ :=
    @char_errors_conservative exampleGrammar { name := "example" } flexTranslator s hs
  obtain ⟨hrun', hended', hstates⟩ := hsame _ fs _ hrun hended (by decide)
  exact ⟨s, s', fs, hs, hs', hrun, hrun', hended', hemitted, hstates⟩

end FlexSynth
