import FlexSynth.Proofs.Scan.StringLiteral

/-!
# Character literals

After the opening quote of a character literal there is a character, plain or escaped, and
a closing quote. With rules for malformed literals, a scanner returns one token for a
well-formed literal, with the character that it means, and one error for anything else. It
is back in the initial state either way, at most three characters after the opening quote
(`char_literal_scanned`).

The token is returned before the closing quote is seen. So a literal that is not closed has
returned a token too, and the error comes after it.

The rules of malformed literals stand behind the others. What the others take, they take
with and without them (`firstRule?_charRulesIn`).
-/

namespace FlexSynth

open Flex

/-! ## The rules inside of a character literal -/

/-- The start states inside of a character literal. -/
def charStates : List String :=
  [StartState.char, StartState.charEscape, StartState.charEnd]

section

variable {g : LexicalGrammar} {options : GeneratorOptions} {translate : Translator}
  {s : Synthesis} {b : Buffers} {rest : List Char}

/-- The rules of character literals that are active in a start state. -/
def charRulesIn (errors : Bool) (state : String) : List Rule :=
  (charRules BuiltinToken.char (if errors then some BuiltinToken.error else none)).filter
    (Rule.activeIn state)

theorem rulesIn_char_literal (hs : synthesize g options translate = .ok s)
    (huses : g.uses .char = true) {state : String} (hstate : state ∈ charStates) :
    s.description.rulesIn state = charRulesIn options.charLiteralErrors state := by
  have hliteral : ∀ state ∈ charStates, state ∈ StartState.literals := by decide
  have hstring : ∀ state ∈ charStates,
      (stringLiteralRules BuiltinToken.string BuiltinToken.error).filter
        (Rule.activeIn state) = [] := by decide
  rw [rulesIn_of_mem_literals hs (hliteral state hstate)]
  unfold literalRules charRulesIn
  rw [List.filter_append, if_pos huses]
  split
  · rw [hstring state hstate, List.nil_append]
  · rw [List.filter_nil, List.nil_append]

/-- The rules of well-formed literals come first. -/
theorem firstRule?_charRulesIn {errors : Bool} {state : String} {c : Char} {w : Rule}
    (h : firstRule? ((charLiteralRules BuiltinToken.char).filter (Rule.activeIn state)) c = some w) :
    firstRule? (charRulesIn errors state) c = some w := by
  unfold charRulesIn charRules
  rw [List.filter_append]
  exact firstRule?_append h

/-- Inside of a character literal, the first rule that matches the next character is taken. -/
theorem step_char_literal (hs : synthesize g options translate = .ok s)
    (huses : g.uses .char = true) {state : String} (hstate : state ∈ charStates) {c : Char}
    {w : Rule} (hrule : firstRule? (charRulesIn options.charLiteralErrors state) c = some w)
    {e : Effect} (hactions : runActions [c] state b none w.actions = .ok e) :
    s.description.step ⟨state, c :: rest, b⟩ =
      .moved ⟨w, [c], e.emitted⟩ ⟨e.state, rest, e.buffers⟩ := by
  have hpatterns : ∀ errors : Bool, ∀ state ∈ charStates, ∀ r ∈ charRulesIn errors state,
      (Flex.read standardMacros r.pattern).all Pattern.isSingle = true := by decide
  exact step_of_firstRule hs (rulesIn_char_literal hs huses hstate) (hpatterns _ state hstate)
    hrule hactions

theorem accepts_except_apostrophe {c : Char} (hquote : c ≠ '\'') :
    (Pattern.set (.except [('\'', '\'')])).accepts [c] = true :=
  Pattern.accepts_iff.mpr (mem_except_apostrophe hquote)

theorem firstRule?_char_plain {c : Char} (hslash : c ≠ '\\') (hquote : c ≠ '\'') :
    firstRule? ((charLiteralRules BuiltinToken.char).filter (Rule.activeIn StartState.char)) c =
      some (.ofState StartState.char "[^']"
        [.begin StartState.charEnd, .assign .char .firstChar, .emit BuiltinToken.char]) := by
  have hrules : (charLiteralRules BuiltinToken.char).filter (Rule.activeIn StartState.char) =
      [.ofState StartState.char "\\\\" [.begin StartState.charEscape],
       .ofState StartState.char "[^']"
         [.begin StartState.charEnd, .assign .char .firstChar, .emit BuiltinToken.char]] := by decide
  unfold firstRule?
  rw [hrules]
  simp [Rule.ofState, read_backslash, read_except_apostrophe, accepts_literal, hslash,
    accepts_except_apostrophe hquote]

/-- The rule for an escaped character that stands for itself. -/
theorem firstRule?_char_escaped {c : Char} (hspecial : c ∉ ['n', 't']) :
    firstRule? ((charLiteralRules BuiltinToken.char).filter
        (Rule.activeIn StartState.charEscape)) c =
      some (.ofState StartState.charEscape ".|\\n"
        [.begin StartState.charEnd, .assign .char .firstChar, .emit BuiltinToken.char]) := by
  have hrules : (charLiteralRules BuiltinToken.char).filter (Rule.activeIn StartState.charEscape) =
      [.ofState StartState.charEscape "n" [.begin StartState.charEnd,
         .assign .char (.constant (some "\n")), .emit BuiltinToken.char],
       .ofState StartState.charEscape "t" [.begin StartState.charEnd,
         .assign .char (.constant (some "\t")), .emit BuiltinToken.char],
       .ofState StartState.charEscape ".|\\n"
         [.begin StartState.charEnd, .assign .char .firstChar, .emit BuiltinToken.char]] := by decide
  have hn : Flex.read standardMacros "n" = some (.literal ['n']) := by decide
  have ht : Flex.read standardMacros "t" = some (.literal ['t']) := by decide
  simp only [List.mem_cons, List.not_mem_nil, or_false, not_or] at hspecial
  unfold firstRule?
  rw [hrules]
  simp [Rule.ofState, hn, ht, read_anything, accepts_literal, hspecial, accepts_anything]

/-- Behind the character, all but the closing quote is an error. -/
theorem firstRule?_charEnd_error {c : Char} (hquote : c ≠ '\'') :
    firstRule? (charRulesIn true StartState.charEnd) c =
      some (.ofState StartState.charEnd ".|\\n"
        [.begin StartState.initial, .emit BuiltinToken.error]) := by
  have hrules : charRulesIn true StartState.charEnd =
      [.ofState StartState.charEnd "\"'\"" [.begin StartState.initial],
       .ofState StartState.charEnd ".|\\n" [.begin StartState.initial, .emit BuiltinToken.error],
       ⟨charStates, Rule.endOfInput, [.begin StartState.initial, .emit BuiltinToken.error],
         none⟩] := by decide
  unfold firstRule?
  rw [hrules]
  simp [Rule.ofState, read_apostrophe, read_anything, accepts_literal, hquote, accepts_anything]

/-! ## Scanning a well-formed literal -/

/-- The token of a character literal; `text` is the character as it is written. -/
def charEmission (c : Char) (text : List Char) : Emission :=
  ⟨BuiltinToken.char, some ⟨.char, .text [c]⟩, text⟩

theorem scans_char_plain (hs : synthesize g options translate = .ok s)
    (huses : g.uses .char = true) {c : Char} (hslash : c ≠ '\\') (hquote : c ≠ '\'') :
    Scans s.description ⟨StartState.char, c :: rest, b⟩ [charEmission c [c]]
      ⟨StartState.charEnd, rest, b⟩ := by
  have hactions : runActions [c] StartState.char b none
      [.begin StartState.charEnd, .assign .char .firstChar, .emit BuiltinToken.char] =
        .ok ⟨StartState.charEnd, b, some (charEmission c [c])⟩ := rfl
  exact .of_step (step_char_literal hs huses (by decide)
    (firstRule?_charRulesIn (firstRule?_char_plain hslash hquote)) hactions)

theorem scans_char_backslash (hs : synthesize g options translate = .ok s)
    (huses : g.uses .char = true) :
    Scans s.description ⟨StartState.char, '\\' :: rest, b⟩ []
      ⟨StartState.charEscape, rest, b⟩ := by
  have hrule : firstRule? ((charLiteralRules BuiltinToken.char).filter
      (Rule.activeIn StartState.char)) '\\' =
        some (.ofState StartState.char "\\\\" [.begin StartState.charEscape]) := by decide
  have hactions : runActions ['\\'] StartState.char b none [.begin StartState.charEscape] =
      .ok ⟨StartState.charEscape, b, none⟩ := rfl
  exact .of_step (step_char_literal hs huses (by decide) (firstRule?_charRulesIn hrule) hactions)

/-- The character after a backslash is returned as what it stands for. -/
theorem scans_char_escaped (hs : synthesize g options translate = .ok s)
    (huses : g.uses .char = true) (c : Char) :
    Scans s.description ⟨StartState.charEscape, c :: rest, b⟩ [charEmission (escapeMeaning c) [c]]
      ⟨StartState.charEnd, rest, b⟩ := by
  have hstep {w : Rule} (hrule : firstRule? ((charLiteralRules BuiltinToken.char).filter
        (Rule.activeIn StartState.charEscape)) c = some w)
      (hactions : runActions [c] StartState.charEscape b none w.actions =
        .ok ⟨StartState.charEnd, b, some (charEmission (escapeMeaning c) [c])⟩) :
      Scans s.description ⟨StartState.charEscape, c :: rest, b⟩
        [charEmission (escapeMeaning c) [c]] ⟨StartState.charEnd, rest, b⟩ :=
    .of_step (step_char_literal hs huses (by decide) (firstRule?_charRulesIn hrule) hactions)
  by_cases hspecial : c ∈ ['n', 't']
  · have hconstant : (firstRule? ((charLiteralRules BuiltinToken.char).filter
        (Rule.activeIn StartState.charEscape)) c).map Rule.actions =
          some [.begin StartState.charEnd,
            .assign .char (.constant (some (String.singleton (escapeMeaning c)))),
            .emit BuiltinToken.char] := by
      rcases List.mem_pair.mp hspecial with rfl | rfl <;> decide
    obtain ⟨w, hrule, hactions⟩ := Option.map_eq_some_iff.mp hconstant
    refine hstep hrule ?_
    rw [hactions]
    simp [runActions, Source.take, charEmission]
    rfl
  · have hmeaning : escapeMeaning c = c := by
      simp only [List.mem_cons, List.not_mem_nil, or_false, not_or] at hspecial
      unfold escapeMeaning
      rw [if_neg hspecial.1, if_neg hspecial.2]
    refine hstep (firstRule?_char_escaped hspecial) ?_
    rw [hmeaning]
    rfl

theorem scans_char_closing (hs : synthesize g options translate = .ok s)
    (huses : g.uses .char = true) :
    Scans s.description ⟨StartState.charEnd, '\'' :: rest, b⟩ []
      ⟨StartState.initial, rest, b⟩ := by
  have hrule : firstRule? ((charLiteralRules BuiltinToken.char).filter
      (Rule.activeIn StartState.charEnd)) '\'' =
        some (.ofState StartState.charEnd "\"'\"" [.begin StartState.initial]) := by decide
  have hactions : runActions ['\''] StartState.charEnd b none [.begin StartState.initial] =
      .ok ⟨StartState.initial, b, none⟩ := rfl
  exact .of_step (step_char_literal hs huses (by decide) (firstRule?_charRulesIn hrule) hactions)

/-- The opening quote, where it wins. -/
theorem scans_char_opening (hs : synthesize g options translate = .ok s) {c : Config}
    (hwinner : s.description.winner? c.state c.rest =
      some (.ofState StartState.initial "\"'\"" [.begin StartState.char])) :
    ∃ rest, c.rest = '\'' :: rest ∧
      Scans s.description c [] ⟨StartState.char, rest, c.buffers⟩ := by
  have hlanguage : s.description.language
      (.ofState StartState.initial "\"'\"" [.begin StartState.char]) = {['\'']} :=
    (language_of_read hs read_apostrophe).trans rfl
  have hactions : runActions ['\''] c.state c.buffers none [.begin StartState.char] =
      .ok ⟨StartState.char, c.buffers, none⟩ := rfl
  obtain ⟨rest, hrest, hstep⟩ := Description.step_of_literal hlanguage hwinner hactions
  exact ⟨rest, hrest, .of_step hstep⟩

/-! ## Scanning a malformed literal -/

/-- The error that is returned for a text. -/
def errorEmission (text : List Char) : Emission :=
  ⟨BuiltinToken.error, none, text⟩

theorem scans_char_empty (hs : synthesize g options translate = .ok s)
    (huses : g.uses .char = true) (herrors : options.charLiteralErrors = true) :
    Scans s.description ⟨StartState.char, '\'' :: rest, b⟩ [errorEmission ['\'']]
      ⟨StartState.initial, rest, b⟩ := by
  have hrule : firstRule? (charRulesIn true StartState.char) '\'' =
      some (.ofState StartState.char "\"'\""
        [.begin StartState.initial, .emit BuiltinToken.error]) := by decide
  have hactions : runActions ['\''] StartState.char b none
      [.begin StartState.initial, .emit BuiltinToken.error] =
        .ok ⟨StartState.initial, b, some (errorEmission ['\''])⟩ := rfl
  rw [← herrors] at hrule
  exact .of_step (step_char_literal hs huses (by decide) hrule hactions)

/-- The end of the input is an error anywhere inside of a character literal. -/
theorem scans_char_unfinished (hs : synthesize g options translate = .ok s)
    (huses : g.uses .char = true) (herrors : options.charLiteralErrors = true) {state : String}
    (hstate : state ∈ charStates) :
    Scans s.description ⟨state, [], b⟩ [errorEmission []] ⟨StartState.initial, [], b⟩ := by
  have hrule : ∀ state ∈ charStates, ∃ w,
      (charRulesIn true state).find? Rule.isEndOfInput = some w ∧
        w.actions = [.begin StartState.initial, .emit BuiltinToken.error] := by decide
  obtain ⟨w, hfirst, hactions⟩ := hrule state hstate
  rw [← herrors, ← rulesIn_char_literal hs huses hstate] at hfirst
  have hrun : runActions [] state b none w.actions =
      .ok ⟨StartState.initial, b, some (errorEmission [])⟩ := by
    rw [hactions]
    rfl
  exact .of_step (Description.step_of_endRule hfirst hrun)

/-- Behind the character, everything but a closing quote is an error. -/
theorem scans_char_unclosed (hs : synthesize g options translate = .ok s)
    (huses : g.uses .char = true) (herrors : options.charLiteralErrors = true) {u : List Char}
    (hquote : ∀ rest, u ≠ '\'' :: rest) :
    ∃ taken rest, u = taken ++ rest ∧ taken.length ≤ 1 ∧
      Scans s.description ⟨StartState.charEnd, u, b⟩ [errorEmission taken]
        ⟨StartState.initial, rest, b⟩ := by
  cases u with
  | nil => exact ⟨[], [], rfl, Nat.zero_le 1, scans_char_unfinished hs huses herrors (by decide)⟩
  | cons c rest =>
    have hother : c ≠ '\'' := fun h => hquote rest (by rw [h])
    have hrule := firstRule?_charEnd_error hother
    have hactions : runActions [c] StartState.charEnd b none
        [.begin StartState.initial, .emit BuiltinToken.error] =
          .ok ⟨StartState.initial, b, some (errorEmission [c])⟩ := rfl
    rw [← herrors] at hrule
    exact ⟨[c], rest, rfl, le_rfl,
      .of_step (step_char_literal hs huses (by decide) hrule hactions)⟩

/-- A scan returns one error after one token at most, within so many characters, and is in
the initial state then. -/
def ReturnsError (d : Description) (c : Config) (limit : Nat) : Prop :=
  ∃ taken rest returned e, c.rest = taken ++ rest ∧ taken.length ≤ limit ∧
    returned.length ≤ 1 ∧ (∀ t ∈ returned, t.token = BuiltinToken.char) ∧
    e.token = BuiltinToken.error ∧
    Scans d c (returned ++ [e]) ⟨StartState.initial, rest, c.buffers⟩

/-- A character without its closing quote is returned, and then an error. -/
theorem returnsError_of_unclosed (before : List Char)
    (hs : synthesize g options translate = .ok s) (huses : g.uses .char = true)
    (herrors : options.charLiteralErrors = true) {state : String} {u : List Char} {t : Emission}
    (htoken : t.token = BuiltinToken.char)
    (hscan : Scans s.description ⟨state, before ++ u, b⟩ [t] ⟨StartState.charEnd, u, b⟩)
    (hquote : ∀ rest, u ≠ '\'' :: rest) :
    ReturnsError s.description ⟨state, before ++ u, b⟩ (before.length + 1) := by
  obtain ⟨taken, rest, rfl, hlength, herror⟩ := scans_char_unclosed (b := b) hs huses herrors hquote
  refine ⟨before ++ taken, rest, [t], errorEmission taken, (List.append_assoc ..).symm, ?_, le_rfl,
    ?_, rfl, hscan.trans herror⟩
  · rw [List.length_append]
    exact Nat.add_le_add_left hlength _
  · intro t' ht'
    rw [List.mem_singleton.mp ht', htoken]

theorem returnsError_of_error (taken rest : List Char) {state : String} {d : Description}
    {text : List Char}
    (hscan : Scans d ⟨state, taken ++ rest, b⟩ [errorEmission text] ⟨StartState.initial, rest, b⟩) :
    ReturnsError d ⟨state, taken ++ rest, b⟩ taken.length :=
  ⟨taken, rest, [], errorEmission text, rfl, le_rfl, Nat.zero_le 1, by simp, rfl, hscan⟩

theorem ReturnsError.mono {d : Description} {c : Config} {limit more : Nat}
    (h : ReturnsError d c limit) (hle : limit ≤ more) : ReturnsError d c more := by
  obtain ⟨taken, rest, returned, e, hrest, hlength, h⟩ := h
  exact ⟨taken, rest, returned, e, hrest, hlength.trans hle, h⟩

/-- After the opening quote, whatever is no well-formed literal is an error. -/
theorem returnsError_char (hs : synthesize g options translate = .ok s)
    (huses : g.uses .char = true) (herrors : options.charLiteralErrors = true) {u : List Char}
    (hplain : ∀ c rest, c ≠ '\'' → c ≠ '\\' → u ≠ c :: '\'' :: rest)
    (hescaped : ∀ c rest, u ≠ '\\' :: c :: '\'' :: rest) :
    ReturnsError s.description ⟨StartState.char, u, b⟩ 3 := by
  match u with
  | [] =>
    have hend : StartState.char ∈ charStates := by decide
    exact (returnsError_of_error [] []
      (scans_char_unfinished hs huses herrors hend)).mono (by decide)
  | c :: u =>
    by_cases hslash : c = '\\'
    · subst hslash
      match u with
      | [] =>
        have hend : StartState.charEscape ∈ charStates := by decide
        exact (returnsError_of_error ['\\'] []
          ((scans_char_backslash hs huses).trans
            (scans_char_unfinished hs huses herrors hend))).mono (by decide)
      | c :: u =>
        refine returnsError_of_unclosed ['\\', c] hs huses herrors rfl
          ((scans_char_backslash hs huses).trans (scans_char_escaped hs huses c)) ?_
        rintro rest rfl
        exact hescaped c rest rfl
    · by_cases hquote : c = '\''
      · subst hquote
        exact (returnsError_of_error ['\''] u
          (scans_char_empty hs huses herrors)).mono (by decide)
      · refine (returnsError_of_unclosed [c] hs huses herrors rfl
          (scans_char_plain hs huses hslash hquote) ?_).mono (Nat.le_succ 2)
        rintro rest rfl
        exact hplain c rest hquote hslash rfl

end

/-- From its opening quote on, a character literal returns one token if it is well-formed,
with the character that it means, and otherwise one error, perhaps after one token. It
ends in the initial state either way. -/
theorem char_literal_scanned {g : LexicalGrammar} {options : GeneratorOptions}
    {translate : Translator} {s : Synthesis} (hs : synthesize g options translate = .ok s)
    (huses : g.uses .char = true) (herrors : options.charLiteralErrors = true) {c : Config}
    (hwinner : s.description.winner? c.state c.rest =
      some (.ofState StartState.initial "\"'\"" [.begin StartState.char])) :
    ∃ u, c.rest = '\'' :: u ∧
      (∀ a rest, a ≠ '\'' → a ≠ '\\' → u = a :: '\'' :: rest →
        Scans s.description c [⟨BuiltinToken.char, some ⟨.char, .text [a]⟩, [a]⟩]
          ⟨StartState.initial, rest, c.buffers⟩) ∧
      (∀ a rest, u = '\\' :: a :: '\'' :: rest →
        Scans s.description c
          [⟨BuiltinToken.char, some ⟨.char, .text [escapeMeaning a]⟩, [a]⟩]
          ⟨StartState.initial, rest, c.buffers⟩) ∧
      ((¬∃ a rest, a ≠ '\'' ∧ a ≠ '\\' ∧ u = a :: '\'' :: rest) →
        (¬∃ a rest, u = '\\' :: a :: '\'' :: rest) →
        ∃ taken rest returned e, u = taken ++ rest ∧ taken.length ≤ 3 ∧ returned.length ≤ 1 ∧
          (∀ t ∈ returned, t.token = BuiltinToken.char) ∧ e.token = BuiltinToken.error ∧
          Scans s.description c (returned ++ [e]) ⟨StartState.initial, rest, c.buffers⟩) := by
  obtain ⟨u, hu, hopening⟩ := scans_char_opening hs hwinner
  refine ⟨u, hu, ?_, ?_, ?_⟩
  · rintro a rest hquote hslash rfl
    exact hopening.trans ((scans_char_plain hs huses hslash hquote).trans
      (scans_char_closing hs huses))
  · rintro a rest rfl
    exact hopening.trans ((scans_char_backslash hs huses).trans
      ((scans_char_escaped hs huses a).trans (scans_char_closing hs huses)))
  · intro hplain hescaped
    obtain ⟨taken, rest, returned, e, hrest, hlength, hone, htoken, herror, hscan⟩ :=
      returnsError_char (b := c.buffers) (u := u) hs huses herrors
        (fun a rest hquote hslash h => hplain ⟨a, rest, hquote, hslash, h⟩)
        (fun a rest h => hescaped ⟨a, rest, h⟩)
    exact ⟨taken, rest, returned, e, hrest, hlength, hone, htoken, herror, hopening.trans hscan⟩

/-- The literal `'\''`, and a quote with two characters after it. -/
theorem char_literal_scanned_quotes : ∃ s,
    synthesize exampleGrammar { name := "example" } flexTranslator = .ok s ∧
    s.description.winner? StartState.initial "'\\'' x".toList =
      some (.ofState StartState.initial "\"'\"" [.begin StartState.char]) ∧
    Scans s.description (.initial "'\\'' x".toList)
      [⟨BuiltinToken.char, some ⟨.char, .text ['\'']⟩, ['\'']⟩] (.initial [' ', 'x']) ∧
    s.description.winner? StartState.initial "'ab".toList =
      some (.ofState StartState.initial "\"'\"" [.begin StartState.char]) ∧
    ∃ taken rest returned e, ['a', 'b'] = taken ++ rest ∧ taken.length ≤ 3 ∧
      returned.length ≤ 1 ∧ (∀ t ∈ returned, t.token = BuiltinToken.char) ∧
      e.token = BuiltinToken.error ∧
      Scans s.description (.initial "'ab".toList) (returned ++ [e]) (.initial rest) := by
  have hopen : ∃ s, synthesize exampleGrammar { name := "example" } flexTranslator = .ok s ∧
      s.description.winner? StartState.initial "'\\'' x".toList =
        some (.ofState StartState.initial "\"'\"" [.begin StartState.char]) ∧
      s.description.winner? StartState.initial "'ab".toList =
        some (.ofState StartState.initial "\"'\"" [.begin StartState.char]) :=
    ⟨_, rfl, by decide +kernel, by decide +kernel⟩
  obtain ⟨s, hs, hescaped, hmalformed⟩ := hopen
  obtain ⟨u, hu, _, hscan, _⟩ :=
    char_literal_scanned (c := .initial "'\\'' x".toList) hs rfl rfl hescaped
  obtain ⟨u', hu', _, _, herror⟩ :=
    char_literal_scanned (c := .initial "'ab".toList) hs rfl rfl hmalformed
  cases hu
  cases hu'
  refine ⟨s, hs, hescaped, hscan '\'' [' ', 'x'] rfl, hmalformed, herror ?_ ?_⟩
  · rintro ⟨a, rest, _, _, h⟩
    cases h
  · rintro ⟨a, rest, h⟩
    cases h

end FlexSynth
