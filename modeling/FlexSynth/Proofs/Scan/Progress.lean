import FlexSynth.Proofs.Scan.Invariant

/-!
# Scans come to an end

Every scan reads its whole input and stops, outside of literals (`scan_completes`).
Three facts make up the proof:

* in every start state of the grammar, every character is matched by some rule
  (`exists_match`), so a scan with input left takes a rule and gets shorter;
* at the end of the input, the states of literals, and only they, have a rule
  (`exists_endRule`, `RuleOrigin.literal_of_endOfInput`);
* that rule leads to the initial state, so it is taken once at most.

Character literals have a match for every character only if malformed ones are errors.
-/

namespace FlexSynth

open Flex

section

variable {g : LexicalGrammar} {options : GeneratorOptions} {translate : Translator}
  {s : Synthesis} {c : Config}

/-! ## Every character is matched -/

/-- The pattern of a rule with its macros expanded. -/
theorem language_of_read (hs : synthesize g options translate = .ok s) {r : Rule} {p : Pattern}
    (hread : Flex.read standardMacros r.pattern = some p) :
    s.description.language r = p.language := by
  unfold Description.language
  rw [macros_of_synthesize hs, hread]

/-- Some active rule matches the character. -/
def Matches (d : Description) (state : String) (c : Char) : Prop :=
  ∃ r ∈ d.rulesIn state, [c] ∈ d.language r

theorem matches_of_origin (hs : synthesize g options translate = .ok s) {r : Rule}
    (horigin : RuleOrigin g options translate r) {state : String} (hstate : state ∈ r.states)
    {p : Pattern} (hread : Flex.read standardMacros r.pattern = some p) {c : Char}
    (hc : [c] ∈ p.language) : Matches s.description state c := by
  refine ⟨r, Description.mem_rulesIn.mpr ⟨(mem_rules_iff hs).mpr horigin, ?_⟩, ?_⟩
  · exact List.contains_iff_mem.mpr hstate
  · rw [language_of_read hs hread]
    exact hc

/-! ### The patterns of single characters -/

def anything : Pattern :=
  .alt dot (.literal ['\n'])

theorem read_dot : Flex.read standardMacros "." = some dot := by decide

theorem read_anything : Flex.read standardMacros ".|\\n" = some anything := by decide

theorem read_apostrophe : Flex.read standardMacros "\"'\"" = some (.literal ['\'']) := by decide

theorem read_except_apostrophe :
    Flex.read standardMacros "[^']" = some (.set (.except [('\'', '\'')])) := by decide

theorem mem_except_apostrophe {c : Char} (hc : c ≠ '\'') :
    [c] ∈ (Pattern.set (.except [('\'', '\'')])).language :=
  Pattern.mem_set.mpr ⟨c, rfl, (contains_except_single c '\'').mpr hc⟩

theorem mem_dot {c : Char} (hc : c ≠ '\n') : [c] ∈ dot.language :=
  Pattern.mem_set.mpr ⟨c, rfl, (contains_except_single c '\n').mpr hc⟩

theorem mem_anything (c : Char) : [c] ∈ anything.language := by
  by_cases hc : c = '\n'
  · exact .inr (congrArg (fun c => [c]) hc)
  · exact .inl (mem_dot hc)

/-! ### The states one by one -/

theorem matches_initial (hs : synthesize g options translate = .ok s) (c : Char) :
    Matches s.description StartState.initial c := by
  by_cases hc : c = '\n'
  · have hread : Flex.read standardMacros "[ \\t\\r\\n\\f]" = some (.set (.members
        [(' ', ' '), ('\t', '\t'), ('\r', '\r'), ('\n', '\n'), ('\x0c', '\x0c')])) := by decide
    refine matches_of_origin hs (.fallback List.mem_cons_self) List.mem_cons_self hread ?_
    exact Pattern.mem_set.mpr ⟨c, rfl, by rw [hc]; decide⟩
  · exact matches_of_origin hs (.fallback (List.mem_cons_of_mem _ List.mem_cons_self))
      List.mem_cons_self read_dot (mem_dot hc)

theorem matches_comment (hs : synthesize g options translate = .ok s) {state : String}
    (hstate : state ∈ g.comments.states) (c : Char) : Matches s.description state c := by
  obtain ⟨form, n, hmem, rfl⟩ := mem_commentStates.mp hstate
  have horigin {r : Rule} (hr : r ∈ blockCommentRules form (commentState n)) :
      RuleOrigin g options translate r := .comment (mem_commentRules.mpr (.inr ⟨form, n, hmem, hr⟩))
  by_cases hc : c = '\n'
  · have hread : Flex.read standardMacros "[\\n]" = some (.set (.members [('\n', '\n')])) := by
      decide
    refine matches_of_origin hs (horigin (mem_blockCommentRules.mpr (.inr (.inr (.inr rfl)))))
      List.mem_cons_self hread ?_
    exact Pattern.mem_set.mpr ⟨c, rfl, by rw [hc]; decide⟩
  · exact matches_of_origin hs (horigin (mem_blockCommentRules.mpr (.inr (.inr (.inl rfl)))))
      List.mem_cons_self read_dot (mem_dot hc)

theorem matches_string (hs : synthesize g options translate = .ok s)
    (huses : g.uses .string = true) {state : String}
    (hstate : state ∈ [StartState.string, StartState.stringEscape]) (c : Char) :
    Matches s.description state c := by
  have hrules : ∀ state ∈ [StartState.string, StartState.stringEscape],
      ∃ r ∈ stringLiteralRules BuiltinToken.string BuiltinToken.error,
        state ∈ r.states ∧ r.pattern = ".|\\n" := by decide
  obtain ⟨r, hr, hactive, hpattern⟩ := hrules state hstate
  exact matches_of_origin hs (.literal (mem_literalRules.mpr (.inl ⟨huses, hr⟩))) hactive
    (hpattern ▸ read_anything) (mem_anything c)

/-- With errors, also what ends or spoils a character literal is matched. -/
theorem matches_char (hs : synthesize g options translate = .ok s) (huses : g.uses .char = true)
    (herrors : options.charLiteralErrors = true) {state : String}
    (hstate : state ∈ [StartState.char, StartState.charEscape, StartState.charEnd]) (c : Char) :
    Matches s.description state c := by
  have horigin : ∀ r ∈ charRules BuiltinToken.char (some BuiltinToken.error),
      RuleOrigin g options translate r := fun r hr =>
    .literal (mem_literalRules.mpr (.inr ⟨huses, by rwa [herrors]⟩))
  have hrules : ∀ state ∈ [StartState.charEscape, StartState.charEnd],
      ∃ r ∈ charRules BuiltinToken.char (some BuiltinToken.error),
        state ∈ r.states ∧ r.pattern = ".|\\n" := by decide
  -- After the opening quote, a second quote is the error and all else is the character.
  rcases List.mem_cons.mp hstate with rfl | hstate
  · by_cases hc : c = '\''
    · have hrule : .ofState StartState.char "\"'\"" [.begin StartState.initial, .emit BuiltinToken.error]
          ∈ charRules BuiltinToken.char (some BuiltinToken.error) := by decide
      exact matches_of_origin hs (horigin _ hrule) List.mem_cons_self read_apostrophe
        (congrArg (fun c => [c]) hc)
    · have hrule : .ofState StartState.char "[^']"
          [.begin StartState.charEnd, .assign .char .firstChar, .emit BuiltinToken.char]
          ∈ charRules BuiltinToken.char (some BuiltinToken.error) := by decide
      exact matches_of_origin hs (horigin _ hrule) List.mem_cons_self read_except_apostrophe
        (mem_except_apostrophe hc)
  · obtain ⟨r, hr, hactive, hpattern⟩ := hrules state hstate
    exact matches_of_origin hs (horigin r hr) hactive (hpattern ▸ read_anything) (mem_anything c)

/-- Every character is matched in every start state of the grammar, as long as malformed
character literals are errors. -/
theorem exists_match (hs : synthesize g options translate = .ok s) {state : String}
    (hstate : state ∈ g.activeStates)
    (hchar : options.charLiteralErrors = true ∨ g.uses .char = false ∨ insideString state = true)
    (c : Char) : Matches s.description state c := by
  rcases mem_activeStates.mp hstate with rfl | hcomment | ⟨huses, hstring⟩ | ⟨huses, hliteral⟩
  · exact matches_initial hs c
  · exact matches_comment hs hcomment c
  · exact matches_string hs huses hstring c
  · have hinside : ∀ state ∈ [StartState.char, StartState.charEscape, StartState.charEnd],
        insideString state = false := by decide
    rcases hchar with herrors | hunused | hstring
    · exact matches_char hs huses herrors hliteral c
    · rw [huses] at hunused
      cases hunused
    · rw [hinside state hliteral] at hstring
      cases hstring

/-! ## The end of the input -/

/-- If the rule is for the end of the input, it closes the literal that is open. -/
def Rule.ClosesAtEnd (r : Rule) : Prop :=
  r.isEndOfInput = true → ∀ state ∈ r.states, state ∈ StartState.literals ∧
    track r.actions state (insideString state) = some (StartState.initial, false)

instance : DecidablePred Rule.ClosesAtEnd := fun r =>
  inferInstanceAs (Decidable (r.isEndOfInput = true → ∀ state ∈ r.states,
    state ∈ StartState.literals ∧
      track r.actions state (insideString state) = some (StartState.initial, false)))

theorem closesAtEnd_of_mem {charErrors : Bool} {r : Rule} (hr : r ∈ literalRules g charErrors) :
    r.ClosesAtEnd :=
  forall_mem_literalRules (by decide) (by decide) hr

/-- There is a rule for the end of the input wherever a literal is open. -/
theorem exists_endRule (hs : synthesize g options translate = .ok s) {state : String}
    (hstate : state ∈ g.activeStates) (hliteral : state ∈ StartState.literals)
    (hchar : options.charLiteralErrors = true ∨ g.uses .char = false ∨ insideString state = true) :
    ∃ r ∈ s.description.rulesIn state, r.isEndOfInput = true := by
  have hrule {r : Rule} (horigin : RuleOrigin g options translate r) (hactive : state ∈ r.states)
      (hend : r.isEndOfInput = true) : ∃ r ∈ s.description.rulesIn state, r.isEndOfInput = true :=
    ⟨r, Description.mem_rulesIn.mpr
      ⟨(mem_rules_iff hs).mpr horigin, List.contains_iff_mem.mpr hactive⟩, hend⟩
  rcases mem_activeStates.mp hstate with rfl | hcomment | ⟨huses, hstring⟩ | ⟨huses, hopen⟩
  · exact absurd hliteral (by decide)
  · obtain ⟨_, n, _, rfl⟩ := mem_commentStates.mp hcomment
    exact absurd (List.mem_cons_of_mem _ hliteral) (commentState_not_mem n)
  · have hrules : ∀ state ∈ [StartState.string, StartState.stringEscape],
        ∃ r ∈ stringLiteralRules BuiltinToken.string BuiltinToken.error,
          state ∈ r.states ∧ r.isEndOfInput = true := by decide
    obtain ⟨r, hr, hactive, hend⟩ := hrules state hstring
    exact hrule (.literal (mem_literalRules.mpr (.inl ⟨huses, hr⟩))) hactive hend
  · have hrules : ∀ state ∈ [StartState.char, StartState.charEscape, StartState.charEnd],
        insideString state = false ∧ ∃ r ∈ charRules BuiltinToken.char (some BuiltinToken.error),
          state ∈ r.states ∧ r.isEndOfInput = true := by decide
    obtain ⟨houtside, r, hr, hactive, hend⟩ := hrules state hopen
    rcases hchar with herrors | hunused | hinside
    · exact hrule (.literal (mem_literalRules.mpr (.inr ⟨huses, by rwa [herrors]⟩))) hactive hend
    · rw [huses] at hunused
      cases hunused
    · rw [houtside] at hinside
      cases hinside

/-! ## Steps -/

/-- With input left, a rule is taken. -/
theorem exists_select?_of_matches {d : Description} {c : Config} {first : Char} {rest : List Char}
    (hrest : c.rest = first :: rest) (h : Matches d c.state first) :
    ∃ r length, d.select? c = some (r, length) := by
  obtain ⟨r, hr, hfirst⟩ := h
  have hpos : 0 < d.matchLength c.rest r := by
    rw [hrest]
    exact Description.matchLength_pos hfirst
  obtain ⟨winner, hwinner⟩ := Description.winner?_isSome_of_pos hr hpos
  refine ⟨winner, d.matchLength c.rest winner, ?_⟩
  unfold Description.select?
  rw [if_neg (by rw [hrest]; exact List.cons_ne_nil _ _), hwinner]
  rfl

/-- At the end of the input, a rule for it is taken. -/
theorem exists_select?_of_endRule {d : Description} {c : Config} (hrest : c.rest = [])
    (h : ∃ r ∈ d.rulesIn c.state, r.isEndOfInput = true) :
    ∃ r length, d.select? c = some (r, length) := by
  obtain ⟨r, hr, hend⟩ := h
  obtain ⟨first, hfirst⟩ := Option.isSome_iff_exists.mp (List.find?_isSome.mpr ⟨r, hr, hend⟩)
  refine ⟨first, 0, ?_⟩
  unfold Description.select?
  rw [if_pos hrest, hfirst]
  rfl

/-- Where a literal is open, a scan does not stop. -/
theorem exists_select?_of_mem_literals (hs : synthesize g options translate = .ok s)
    (hc : c.Sound g) (hliteral : c.state ∈ StartState.literals)
    (hchar : options.charLiteralErrors = true ∨ g.uses .char = false ∨
      insideString c.state = true) :
    ∃ r length, s.description.select? c = some (r, length) := by
  cases hrest : c.rest with
  | nil => exact exists_select?_of_endRule hrest (exists_endRule hs hc.state_mem hliteral hchar)
  | cons first rest =>
    exact exists_select?_of_matches hrest (exists_match hs hc.state_mem hchar first)

end

section

variable {g : LexicalGrammar} {options : GeneratorOptions} {s : Synthesis} {c : Config}

/-- With input left, a scan takes a rule and has less input left afterwards. -/
theorem step_of_rest_ne_nil (hs : synthesize g options flexTranslator = .ok s) (hc : c.Sound g)
    (hchar : options.charLiteralErrors = true ∨ g.uses .char = false) (hrest : c.rest ≠ []) :
    ∃ f next, s.description.step c = .moved f next ∧ next.Sound g ∧
      next.rest.length < c.rest.length ∧ f.rule.isEndOfInput = false := by
  obtain ⟨first, rest, hcons⟩ := List.exists_cons_of_ne_nil hrest
  have hmatch := exists_match hs hc.state_mem (hchar.imp_right .inl) first
  obtain ⟨r, length, hselect⟩ := exists_select?_of_matches hcons hmatch
  obtain ⟨e, _, hstep, hsound⟩ := moved_of_select? hs hc hselect
  have hselected := Description.selected_of_select? hselect
  refine ⟨_, _, hstep, hsound, ?_, ?_⟩
  · have hpos := hselected.pos hrest
    have hlength := List.length_pos_of_ne_nil hrest
    rw [List.length_drop]
    omega
  · exact Bool.eq_false_iff.mpr fun hend => hrest (hselected.atEnd.mp hend)

/-- At the end of the input, a scan stops or closes the literal that is open. -/
theorem step_of_rest_eq_nil (hs : synthesize g options flexTranslator = .ok s) (hc : c.Sound g)
    (hchar : options.charLiteralErrors = true ∨ g.uses .char = false) (hrest : c.rest = []) :
    (c.state ∉ StartState.literals ∧ s.description.step c = .ended) ∨
    (c.state ∈ StartState.literals ∧ ∃ f next, s.description.step c = .moved f next ∧
      next.Sound g ∧ next.rest = [] ∧ next.state = StartState.initial) := by
  cases hselect : s.description.select? c with
  | none =>
    refine .inl ⟨?_, ?_⟩
    · intro hliteral
      obtain ⟨r, length, hsome⟩ :=
        exists_select?_of_mem_literals hs hc hliteral (hchar.imp_right .inl)
      rw [hselect] at hsome
      cases hsome
    · exact Description.step_eq_ended_iff.mpr ⟨hselect, hrest⟩
  | some choice =>
    obtain ⟨r, length⟩ := choice
    obtain ⟨e, he, hstep, hsound⟩ := moved_of_select? hs hc hselect
    have hselected := Description.selected_of_select? hselect
    have horigin := (mem_rules_iff hs).mp hselected.mem
    have hliteral :=
      horigin.literal_of_endOfInput flexTranslator_avoidsEnd (hselected.atEnd.mpr hrest)
    obtain ⟨hopen, htrack⟩ := closesAtEnd_of_mem hliteral (hselected.atEnd.mpr hrest) c.state
      (List.contains_iff_mem.mp hselected.active)
    obtain ⟨e', he', hstate, _⟩ := runActions_of_track htrack hc.live_eq hc.accounted _ none
    rw [he] at he'
    cases he'
    refine .inr ⟨hopen, _, _, hstep, hsound, ?_, hstate⟩
    rw [hrest, List.drop_nil]

theorem initial_or_comment {state : String} (hstate : state ∈ g.activeStates)
    (houtside : state ∉ StartState.literals) :
    state = StartState.initial ∨ state ∈ g.comments.states := by
  have hliterals : ∀ state ∈ [StartState.string, StartState.stringEscape] ++
      [StartState.char, StartState.charEscape, StartState.charEnd], state ∈ StartState.literals := by
    decide
  rcases mem_activeStates.mp hstate with hinitial | hcomment | ⟨_, hstring⟩ | ⟨_, hchar⟩
  · exact .inl hinitial
  · exact .inr hcomment
  · exact absurd (hliterals state (List.mem_append_left _ hstring)) houtside
  · exact absurd (hliterals state (List.mem_append_right _ hchar)) houtside

/-! ## Whole scans -/

/-- How often a rule for the end of the input has been taken. -/
def endCount (fs : List Firing) : Nat :=
  fs.countP fun f => f.rule.isEndOfInput

/-- A scan goes on to the end of its input, where it may have to close a literal. -/
theorem exists_run_to_end (hs : synthesize g options flexTranslator = .ok s) (hc : c.Sound g)
    (hchar : options.charLiteralErrors = true ∨ g.uses .char = false) :
    ∃ fs last, Run s.description c fs last ∧ last.Sound g ∧ s.description.step last = .ended ∧
      last.state ∉ StartState.literals ∧ endCount fs ≤ 1 := by
  induction hlength : c.rest.length using Nat.strong_induction_on generalizing c with
  | _ n ih =>
    by_cases hrest : c.rest = []
    · rcases step_of_rest_eq_nil hs hc hchar hrest with ⟨houtside, hended⟩ |
        ⟨_, f, next, hstep, hsound, hnext, hinitial⟩
      · exact ⟨[], c, .refl c, hc, hended, houtside, Nat.zero_le 1⟩
      · -- No literal is open in the initial state, so the second step stops.
        rcases step_of_rest_eq_nil hs hsound hchar hnext with ⟨houtside, hended⟩ | ⟨hopen, _⟩
        · exact ⟨[f], next, .step hstep (.refl next), hsound, hended, houtside,
            List.countP_le_length⟩
        · rw [hinitial] at hopen
          exact absurd hopen (by decide)
    · obtain ⟨f, next, hstep, hsound, hshorter, hmiddle⟩ := step_of_rest_ne_nil hs hc hchar hrest
      obtain ⟨fs, last, hrun, hlast, hended, hliteral, hcount⟩ :=
        ih next.rest.length (hlength ▸ hshorter) hsound rfl
      refine ⟨f :: fs, last, .step hstep hrun, hlast, hended, hliteral, ?_⟩
      unfold endCount
      rw [List.countP_cons_of_neg (by rw [hmiddle]; exact Bool.false_ne_true)]
      exact hcount

end

/-- A scan never gets stuck, and comes to an end. By then it has read all of its input,
has taken a rule for the end of the input once at most, and is in no literal. -/
theorem scan_completes {g : LexicalGrammar} {options : GeneratorOptions} {s : Synthesis}
    (hs : synthesize g options flexTranslator = .ok s)
    (hchar : options.charLiteralErrors = true ∨ g.uses .char = false) (input : List Char) :
    (∀ fs c, Run s.description (.initial input) fs c → s.description.step c ≠ .stuck) ∧
    ∃ fs last, Run s.description (.initial input) fs last ∧ s.description.step last = .ended ∧
      fs.flatMap Firing.text = input ∧ endCount fs ≤ 1 ∧
      (last.state = StartState.initial ∨ last.state ∈ g.comments.states) ∧
      last.state ∉ StartState.literals := by
  constructor
  · intro fs c hrun hstuck
    have hc := sound_of_run hs hrun
    obtain ⟨_, hrest⟩ := Description.step_eq_stuck_iff.mp hstuck
    obtain ⟨f, next, hstep, _⟩ := step_of_rest_ne_nil hs hc hchar hrest
    rw [hstuck] at hstep
    cases hstep
  · obtain ⟨fs, last, hrun, hlast, hended, houtside, hcount⟩ :=
      exists_run_to_end hs (sound_initial input) hchar
    obtain ⟨_, hrest⟩ := Description.step_eq_ended_iff.mp hended
    have htexts := hrun.texts_append_rest
    rw [hrest, List.append_nil] at htexts
    refine ⟨fs, last, hrun, hended, htexts, hcount, ?_, houtside⟩
    exact initial_or_comment hlast.state_mem houtside

/-- An input that ends after the backslash of an unfinished string literal. -/
theorem scan_completes_unfinished : ∃ s,
    synthesize exampleGrammar { name := "example" } flexTranslator = .ok s ∧
    ∃ fs last, Run s.description (.initial "if \"a\\".toList) fs last ∧
      s.description.step last = .ended ∧ fs.flatMap Firing.text = "if \"a\\".toList ∧
      endCount fs ≤ 1 ∧
      (last.state = StartState.initial ∨ last.state ∈ exampleGrammar.comments.states) ∧
      last.state ∉ StartState.literals :=
  ⟨_, rfl, (scan_completes rfl (.inl rfl) _).2⟩

/-! ## The literal buffer of a scan -/

/-- Throughout a scan, a literal buffer is live exactly while a string literal is open,
and no action misuses it. When the scan is over, every buffer that was made has been
harvested or freed, and none of them twice. -/
theorem literal_buffer_life {g : LexicalGrammar} {options : GeneratorOptions}
    {translate : Translator} {s : Synthesis} (hs : synthesize g options translate = .ok s)
    {input : List Char} {fs : List Firing} {c : Config}
    (hrun : Run s.description (.initial input) fs c) :
    (c.buffers.live.isSome = true ↔
      c.state = StartState.string ∨ c.state = StartState.stringEscape) ∧
    (∀ fault, s.description.step c ≠ .misused fault) ∧
    (s.description.step c = .ended ∨ s.description.step c = .stuck →
      c.buffers.live = none ∧ c.buffers.released.map Prod.fst = List.range c.buffers.made) := by
  have hc := sound_of_run hs hrun
  refine ⟨by rw [hc.live_eq, insideString_eq_true_iff], step_ne_misused hs hc, ?_⟩
  intro hover
  have hnone : s.description.select? c = none := by
    rcases hover with hended | hstuck
    · exact (Description.step_eq_ended_iff.mp hended).1
    · exact (Description.step_eq_stuck_iff.mp hstuck).1
  have houtside : insideString c.state = false := by
    rw [Bool.eq_false_iff]
    intro hinside
    obtain ⟨r, length, hselect⟩ := exists_select?_of_mem_literals hs hc
      (mem_literals_of_insideString hinside) (.inr (.inr hinside))
    rw [hnone] at hselect
    cases hselect
  have hlive : c.buffers.live = none :=
    Option.not_isSome_iff_eq_none.mp (by rw [hc.live_eq, houtside]; exact Bool.false_ne_true)
  have haccounted := hc.accounted
  unfold Buffers.Accounted at haccounted
  rw [hlive, Option.toList_none, List.map_nil, List.append_nil] at haccounted
  exact ⟨hlive, haccounted⟩

/-- The quote that opens a string literal. -/
def openedFiring : Firing :=
  ⟨.ofState StartState.initial "\"\\\"\"" [.createBuffer, .begin StartState.string], ['"'], none⟩

/-- After the quote, where the first buffer is live and empty. -/
def openedConfig : Config :=
  ⟨StartState.string, ['a'], ⟨some ⟨0, []⟩, 1, []⟩⟩

theorem literal_buffer_life_opened : ∃ s,
    synthesize exampleGrammar { name := "example" } flexTranslator = .ok s ∧
    Run s.description (.initial "\"a".toList) [openedFiring] openedConfig ∧
    (openedConfig.buffers.live.isSome = true ↔
      openedConfig.state = StartState.string ∨ openedConfig.state = StartState.stringEscape) ∧
    (∀ fault, s.description.step openedConfig ≠ .misused fault) ∧
    (s.description.step openedConfig = .ended ∨ s.description.step openedConfig = .stuck →
      openedConfig.buffers.live = none ∧
        openedConfig.buffers.released.map Prod.fst = List.range openedConfig.buffers.made) := by
  have hopen : ∃ s, synthesize exampleGrammar { name := "example" } flexTranslator = .ok s ∧
      s.description.step (.initial "\"a".toList) = .moved openedFiring openedConfig :=
    ⟨_, rfl, by decide +kernel⟩
  obtain ⟨s, hs, hstep⟩ := hopen
  have hrun : Run s.description (.initial "\"a".toList) [openedFiring] openedConfig :=
    .step hstep (.refl _)
  exact ⟨s, hs, hrun, literal_buffer_life hs hrun⟩

end FlexSynth
