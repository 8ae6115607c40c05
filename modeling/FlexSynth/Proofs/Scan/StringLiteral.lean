import FlexSynth.Proofs.Scan.States
import FlexSynth.Proofs.Scan.Winner

/-!
# String literals

The text after the opening quote of a string literal is a row of units: characters that
stand for themselves, and escapes (`LiteralUnit`). A scanner decodes the units up to the
first quote among them and returns the text that they mean, or it returns an error when
there is no such quote (`string_literal_decoded`). A text in which every backslash and
every quote is escaped means the text itself (`decoded_ofChar`).

The scan is followed unit by unit (`scans_unit`). Inside of a string literal, all rules
match single characters, so the first rule for the next character is taken; backslash,
quote and the escaped letters come before the rule for any character.
-/

namespace FlexSynth

open Flex

/-! ## Units -/

/-- A part of the text of a string literal. -/
inductive LiteralUnit where
  | plain (c : Char) (h : c ≠ '\\' ∧ c ≠ '"')
  | escaped (c : Char)

/-- What an escaped character stands for. -/
def escapeMeaning (c : Char) : Char :=
  if c = 'n' then '\n' else if c = 't' then '\t' else c

namespace LiteralUnit

def spelling : LiteralUnit → List Char
  | plain c _ => [c]
  | escaped c => ['\\', c]

def meaning : LiteralUnit → Char
  | plain c _ => c
  | escaped c => escapeMeaning c

/-- The unit that stands for a character without changing it. -/
def ofChar (c : Char) : LiteralUnit :=
  if h : c ≠ '\\' ∧ c ≠ '"' then plain c h else escaped c

end LiteralUnit

def spelled (body : List LiteralUnit) : List Char :=
  body.flatMap LiteralUnit.spelling

def decoded (body : List LiteralUnit) : List Char :=
  body.map LiteralUnit.meaning

/-- Puts a backslash before every backslash and every quote. -/
def protect (text : List Char) : List Char :=
  text.flatMap fun c => if c = '\\' ∨ c = '"' then ['\\', c] else [c]

theorem spelled_cons (u : LiteralUnit) (body : List LiteralUnit) :
    spelled (u :: body) = u.spelling ++ spelled body :=
  List.flatMap_cons

theorem spelled_ofChar (text : List Char) :
    spelled (text.map LiteralUnit.ofChar) = protect text := by
  unfold spelled protect
  rw [List.flatMap_map]
  congr 1
  funext c
  unfold LiteralUnit.ofChar
  split
  · next h => simp [h, LiteralUnit.spelling]
  · next h =>
    rw [if_pos (by tauto)]
    rfl

theorem decoded_ofChar (text : List Char) :
    decoded (text.map LiteralUnit.ofChar) = text := by
  have hmeaning (c : Char) : (LiteralUnit.ofChar c).meaning = c := by
    unfold LiteralUnit.ofChar
    split
    · rfl
    · next h =>
      rw [not_and_or, not_not, not_not] at h
      rcases h with rfl | rfl <;> rfl
  unfold decoded
  rw [List.map_map]
  exact List.map_id'' hmeaning text

/-- The text is a row of units up to a quote, or to its end, where a backslash may be left
over. -/
def SplitsIntoUnits (text : List Char) : Prop :=
  (∃ body rest, text = spelled body ++ '"' :: rest) ∨
    ∃ body, text = spelled body ∨ text = spelled body ++ ['\\']

theorem SplitsIntoUnits.cons {text : List Char} (h : SplitsIntoUnits text) (u : LiteralUnit) :
    SplitsIntoUnits (u.spelling ++ text) := by
  rcases h with ⟨body, rest, rfl⟩ | ⟨body, rfl | rfl⟩
  · exact .inl ⟨u :: body, rest, by rw [spelled_cons, List.append_assoc]⟩
  · exact .inr ⟨u :: body, .inl (spelled_cons u body).symm⟩
  · exact .inr ⟨u :: body, .inr (by rw [spelled_cons, List.append_assoc])⟩

theorem splitsIntoUnits : ∀ text : List Char, SplitsIntoUnits text
  | [] => .inr ⟨[], .inl rfl⟩
  | [c] => by
    by_cases hquote : c = '"'
    · exact .inl ⟨[], [], by rw [hquote]; rfl⟩
    · by_cases hslash : c = '\\'
      · exact .inr ⟨[], .inr (by rw [hslash]; rfl)⟩
      · exact (splitsIntoUnits []).cons (.plain c ⟨hslash, hquote⟩)
  | c :: c' :: rest => by
    by_cases hquote : c = '"'
    · exact .inl ⟨[], c' :: rest, by rw [hquote]; rfl⟩
    · by_cases hslash : c = '\\'
      · rw [hslash]
        exact (splitsIntoUnits rest).cons (.escaped c')
      · exact (splitsIntoUnits (c' :: rest)).cons (.plain c ⟨hslash, hquote⟩)

/-! ## The rules inside of a string literal -/

section

variable {g : LexicalGrammar} {options : GeneratorOptions} {translate : Translator}
  {s : Synthesis} {b : Buffers} {rest : List Char}

/-- The rules of string literals that are active in a start state. -/
def stringRulesIn (state : String) : List Rule :=
  (stringLiteralRules BuiltinToken.string BuiltinToken.error).filter (Rule.activeIn state)

theorem rulesIn_string_literal (hs : synthesize g options translate = .ok s)
    (huses : g.uses .string = true) {state : String}
    (hstate : state ∈ [StartState.string, StartState.stringEscape]) :
    s.description.rulesIn state = stringRulesIn state := by
  have hliteral : ∀ state ∈ [StartState.string, StartState.stringEscape],
      state ∈ StartState.literals := by decide
  have hchar : ∀ state ∈ [StartState.string, StartState.stringEscape], ∀ errors : Bool,
      (charRules BuiltinToken.char (if errors then some BuiltinToken.error else none)).filter
        (Rule.activeIn state) = [] := by decide
  rw [rulesIn_of_mem_literals hs (hliteral state hstate)]
  unfold literalRules stringRulesIn
  rw [List.filter_append, if_pos huses]
  split
  · rw [hchar state hstate, List.append_nil]
  · rw [List.filter_nil, List.append_nil]

/-- The first rule of a string literal that matches the character. -/
def stringRule? (state : String) (c : Char) : Option Rule :=
  (stringRulesIn state).find? fun r =>
    (Flex.read standardMacros r.pattern).any fun p => p.accepts [c]

/-- Inside of a string literal, that rule is taken. -/
theorem step_string_literal (hs : synthesize g options translate = .ok s)
    (huses : g.uses .string = true) {state : String}
    (hstate : state ∈ [StartState.string, StartState.stringEscape]) {c : Char} {w : Rule}
    (hrule : stringRule? state c = some w) {e : Effect}
    (hactions : runActions [c] state b none w.actions = .ok e) :
    s.description.step ⟨state, c :: rest, b⟩ =
      .moved ⟨w, [c], e.emitted⟩ ⟨e.state, rest, e.buffers⟩ := by
  have hpatterns : ∀ state ∈ [StartState.string, StartState.stringEscape],
      ∀ r ∈ stringRulesIn state,
      (Flex.read standardMacros r.pattern).all Pattern.isSingle = true := by decide
  exact step_of_firstRule hs (rulesIn_string_literal hs huses hstate) (hpatterns state hstate)
    hrule hactions

theorem accepts_literal (a c : Char) : (Pattern.literal [a]).accepts [c] = decide (c = a) := by
  rw [Bool.eq_iff_iff, Pattern.accepts_iff, Pattern.mem_literal, decide_eq_true_eq,
    List.singleton_inj]

theorem read_backslash : Flex.read standardMacros "\\\\" = some (.literal ['\\']) := by decide

theorem read_quote : Flex.read standardMacros "\\\"" = some (.literal ['"']) := by decide

theorem accepts_anything (c : Char) : anything.accepts [c] = true :=
  Pattern.accepts_iff.mpr (mem_anything c)

theorem stringRule?_plain {c : Char} (hslash : c ≠ '\\') (hquote : c ≠ '"') :
    stringRule? StartState.string c =
      some (.ofState StartState.string ".|\\n" [.appendChar none]) := by
  have hrules : stringRulesIn StartState.string =
      [.ofState StartState.string "\\\\" [.begin StartState.stringEscape],
       .ofState StartState.string "\\\""
         [.assign .string .buffer, .begin StartState.initial, .emit BuiltinToken.string],
       .ofState StartState.string ".|\\n" [.appendChar none],
       ⟨[StartState.string, StartState.stringEscape], Rule.endOfInput,
         [.freeBuffer, .begin StartState.initial, .emit BuiltinToken.error], none⟩] := by decide
  unfold stringRule?
  rw [hrules]
  simp [Rule.ofState, read_backslash, read_quote, read_anything, accepts_literal, hslash, hquote,
    accepts_anything]

theorem stringRule?_escaped {c : Char} (hspecial : c ∉ ['n', '"', '\\', 't']) :
    stringRule? StartState.stringEscape c =
      some (.ofState StartState.stringEscape ".|\\n" [.appendText, .begin StartState.string]) := by
  have hrules : stringRulesIn StartState.stringEscape =
      [.ofState StartState.stringEscape "n" [.appendChar (some "\n"), .begin StartState.string],
       .ofState StartState.stringEscape "\\\"" [.appendChar (some "\""), .begin StartState.string],
       .ofState StartState.stringEscape "\\\\" [.appendChar (some "\\"), .begin StartState.string],
       .ofState StartState.stringEscape "t" [.appendChar (some "\t"), .begin StartState.string],
       .ofState StartState.stringEscape ".|\\n" [.appendText, .begin StartState.string],
       ⟨[StartState.string, StartState.stringEscape], Rule.endOfInput,
         [.freeBuffer, .begin StartState.initial, .emit BuiltinToken.error], none⟩] := by decide
  have hn : Flex.read standardMacros "n" = some (.literal ['n']) := by decide
  have ht : Flex.read standardMacros "t" = some (.literal ['t']) := by decide
  simp only [List.mem_cons, List.not_mem_nil, or_false, not_or] at hspecial
  unfold stringRule?
  rw [hrules]
  simp [Rule.ofState, read_backslash, read_quote, hn, ht, read_anything, accepts_literal, hspecial,
    accepts_anything]

/-! ## Scanning a string literal -/

/-- Buffers of which the live one holds a text. -/
def Buffers.holding (b : Buffers) (text : List Char) : Buffers :=
  { b with live := some ⟨b.made, text⟩, made := b.made + 1 }

/-- Buffers of which one more has been made and given up. -/
def Buffers.spent (b : Buffers) (how : Release) : Buffers :=
  ⟨none, b.made + 1, b.released ++ [(b.made, how)]⟩

/-- The character after a backslash is appended as what it stands for. -/
theorem scans_escaped (hs : synthesize g options translate = .ok s)
    (huses : g.uses .string = true) (text : List Char) (c : Char) :
    Scans s.description ⟨StartState.stringEscape, c :: rest, b.holding text⟩ []
      ⟨StartState.string, rest, b.holding (text ++ [escapeMeaning c])⟩ := by
  have hstate : StartState.stringEscape ∈ [StartState.string, StartState.stringEscape] := by decide
  have hstep {w : Rule} (hrule : stringRule? StartState.stringEscape c = some w)
      (hactions : runActions [c] StartState.stringEscape (b.holding text) none w.actions =
        .ok ⟨StartState.string, b.holding (text ++ [escapeMeaning c]), none⟩) :
      Scans s.description ⟨StartState.stringEscape, c :: rest, b.holding text⟩ []
        ⟨StartState.string, rest, b.holding (text ++ [escapeMeaning c])⟩ :=
    .of_step (step_string_literal hs huses hstate hrule hactions)
  by_cases hspecial : c ∈ ['n', '"', '\\', 't']
  · have happended : (stringRule? StartState.stringEscape c).map Rule.actions =
        some [.appendChar (some (String.singleton (escapeMeaning c))),
          .begin StartState.string] := by
      simp only [List.mem_cons, List.not_mem_nil, or_false] at hspecial
      rcases hspecial with rfl | rfl | rfl | rfl <;> decide
    obtain ⟨w, hrule, hactions⟩ := Option.map_eq_some_iff.mp happended
    refine hstep hrule ?_
    rw [hactions]
    simp [runActions, Buffers.append, Buffers.holding]
    rfl
  · have hmeaning : escapeMeaning c = c := by
      simp only [List.mem_cons, List.not_mem_nil, or_false, not_or] at hspecial
      unfold escapeMeaning
      rw [if_neg hspecial.1, if_neg hspecial.2.2.2]
    refine hstep (stringRule?_escaped hspecial) ?_
    rw [hmeaning]
    rfl

theorem scans_backslash (hs : synthesize g options translate = .ok s)
    (huses : g.uses .string = true) (text : List Char) :
    Scans s.description ⟨StartState.string, '\\' :: rest, b.holding text⟩ []
      ⟨StartState.stringEscape, rest, b.holding text⟩ := by
  have hrule : stringRule? StartState.string '\\' =
      some (.ofState StartState.string "\\\\" [.begin StartState.stringEscape]) := by decide
  have hactions : runActions ['\\'] StartState.string (b.holding text) none
      [.begin StartState.stringEscape] =
        .ok ⟨StartState.stringEscape, b.holding text, none⟩ := rfl
  exact .of_step (step_string_literal hs huses (by decide) hrule hactions)

/-- A unit is appended as what it means. -/
theorem scans_unit (hs : synthesize g options translate = .ok s)
    (huses : g.uses .string = true) (text : List Char) (u : LiteralUnit) :
    Scans s.description ⟨StartState.string, u.spelling ++ rest, b.holding text⟩ []
      ⟨StartState.string, rest, b.holding (text ++ [u.meaning])⟩ := by
  cases u with
  | plain c h =>
    have hactions : runActions [c] StartState.string (b.holding text) none [.appendChar none] =
        .ok ⟨StartState.string, b.holding (text ++ [c]), none⟩ := rfl
    exact .of_step (step_string_literal hs huses (by decide) (stringRule?_plain h.1 h.2) hactions)
  | escaped c =>
    exact (scans_backslash hs huses text).trans (scans_escaped hs huses text c)

/-- The units up to a quote are decoded. -/
theorem scans_units (hs : synthesize g options translate = .ok s)
    (huses : g.uses .string = true) (text : List Char) (body : List LiteralUnit) :
    Scans s.description ⟨StartState.string, spelled body ++ rest, b.holding text⟩ []
      ⟨StartState.string, rest, b.holding (text ++ decoded body)⟩ := by
  induction body generalizing text with
  | nil =>
    unfold decoded
    rw [List.map_nil, List.append_nil]
    exact .refl _
  | cons u body ih =>
    have hunit : Scans s.description
        ⟨StartState.string, u.spelling ++ (spelled body ++ rest), b.holding text⟩ []
        ⟨StartState.string, spelled body ++ rest, b.holding (text ++ [u.meaning])⟩ :=
      scans_unit hs huses text u
    have hbody := ih (text ++ [u.meaning])
    rw [List.append_assoc, List.singleton_append] at hbody
    rw [spelled_cons, List.append_assoc]
    exact hunit.trans hbody

/-- The closing quote returns the text. -/
theorem scans_closing (hs : synthesize g options translate = .ok s)
    (huses : g.uses .string = true) (text : List Char) :
    Scans s.description ⟨StartState.string, '"' :: rest, b.holding text⟩
      [⟨BuiltinToken.string, some ⟨.string, .text text⟩, ['"']⟩]
      ⟨StartState.initial, rest, b.spent .harvested⟩ := by
  have hrule : stringRule? StartState.string '"' =
      some (.ofState StartState.string "\\\""
        [.assign .string .buffer, .begin StartState.initial, .emit BuiltinToken.string]) := by decide
  have hactions : runActions ['"'] StartState.string (b.holding text) none
      [.assign .string .buffer, .begin StartState.initial, .emit BuiltinToken.string] =
        .ok ⟨StartState.initial, b.spent .harvested,
          some ⟨BuiltinToken.string, some ⟨.string, .text text⟩, ['"']⟩⟩ := rfl
  exact .of_step (step_string_literal hs huses (by decide) hrule hactions)

/-- The end of the input drops the buffer and returns an error. -/
theorem scans_unfinished (hs : synthesize g options translate = .ok s)
    (huses : g.uses .string = true) {state : String}
    (hstate : state ∈ [StartState.string, StartState.stringEscape]) (text : List Char) :
    Scans s.description ⟨state, [], b.holding text⟩ [⟨BuiltinToken.error, none, []⟩]
      ⟨StartState.initial, [], b.spent .freed⟩ := by
  have hrule : ∀ state ∈ [StartState.string, StartState.stringEscape],
      ∃ w, (stringRulesIn state).find? Rule.isEndOfInput = some w ∧
        w.actions = [.freeBuffer, .begin StartState.initial, .emit BuiltinToken.error] := by decide
  obtain ⟨w, hfirst, hactions⟩ := hrule state hstate
  rw [← rulesIn_string_literal hs huses hstate] at hfirst
  have hrun : runActions [] state (b.holding text) none w.actions =
      .ok ⟨StartState.initial, b.spent .freed, some ⟨BuiltinToken.error, none, []⟩⟩ := by
    rw [hactions]
    rfl
  exact .of_step (Description.step_of_endRule hfirst hrun)

/-- The opening quote makes a buffer. -/
theorem scans_opening (hs : synthesize g options translate = .ok s) {c : Config}
    (hlive : c.buffers.live = none)
    (hwinner : s.description.winner? c.state c.rest = some (.ofState StartState.initial "\"\\\"\""
      [.createBuffer, .begin StartState.string])) :
    ∃ rest, c.rest = '"' :: rest ∧
      Scans s.description c [] ⟨StartState.string, rest, c.buffers.holding []⟩ := by
  have hread : Flex.read standardMacros "\"\\\"\"" = some (.literal ['"']) := by decide
  have hlanguage : s.description.language (.ofState StartState.initial "\"\\\"\""
      [.createBuffer, .begin StartState.string]) = {['"']} :=
    (language_of_read hs hread).trans rfl
  have hactions : runActions ['"'] c.state c.buffers none
      [.createBuffer, .begin StartState.string] =
        .ok ⟨StartState.string, c.buffers.holding [], none⟩ := by
    simp [runActions, Buffers.create, hlive, Buffers.holding]
    rfl
  obtain ⟨rest, hrest, hstep⟩ := Description.step_of_literal hlanguage hwinner hactions
  exact ⟨rest, hrest, .of_step hstep⟩

end

/-- From its opening quote on, a string literal is decoded up to the first quote that is
not escaped, and its token returned. Where there is no such quote, the rest of the input
is dropped and an error returned. So a text in which backslashes and quotes are escaped
is decoded as the text. -/
theorem string_literal_decoded {g : LexicalGrammar} {options : GeneratorOptions}
    {translate : Translator} {s : Synthesis} (hs : synthesize g options translate = .ok s)
    (huses : g.uses .string = true) {input : List Char} {fs : List Firing} {c : Config}
    (hrun : Run s.description (.initial input) fs c) (hinitial : c.state = StartState.initial)
    (hwinner : s.description.winner? c.state c.rest = some (.ofState StartState.initial "\"\\\"\""
      [.createBuffer, .begin StartState.string])) :
    ∃ u, c.rest = '"' :: u ∧
      (∀ body rest, u = spelled body ++ '"' :: rest →
        Scans s.description c [⟨BuiltinToken.string, some ⟨.string, .text (decoded body)⟩, ['"']⟩]
          ⟨StartState.initial, rest, c.buffers.spent .harvested⟩) ∧
      ((¬∃ body rest, u = spelled body ++ '"' :: rest) →
        Scans s.description c [⟨BuiltinToken.error, none, []⟩]
          ⟨StartState.initial, [], c.buffers.spent .freed⟩) ∧
      ∀ text rest, u = protect text ++ '"' :: rest →
        Scans s.description c [⟨BuiltinToken.string, some ⟨.string, .text text⟩, ['"']⟩]
          ⟨StartState.initial, rest, c.buffers.spent .harvested⟩ := by
  have hlive : c.buffers.live = none := by
    have hsound := (sound_of_run hs hrun).live_eq
    rw [hinitial] at hsound
    exact Option.not_isSome_iff_eq_none.mp (by rw [hsound]; decide)
  obtain ⟨u, hu, hopening⟩ := scans_opening hs hlive hwinner
  have hdecoded (body : List LiteralUnit) (rest : List Char) (h : u = spelled body ++ '"' :: rest) :
      Scans s.description c [⟨BuiltinToken.string, some ⟨.string, .text (decoded body)⟩, ['"']⟩]
        ⟨StartState.initial, rest, c.buffers.spent .harvested⟩ := by
    rw [h] at hopening
    exact hopening.trans ((scans_units hs huses [] body).trans (scans_closing hs huses _))
  refine ⟨u, hu, hdecoded, ?_, ?_⟩
  · intro hopen
    obtain ⟨body, h | h⟩ := (splitsIntoUnits u).resolve_left hopen
    · rw [h, ← List.append_nil (spelled body)] at hopening
      exact hopening.trans ((scans_units hs huses [] body).trans
        (scans_unfinished hs huses (by decide) _))
    · -- The input ends after a backslash.
      rw [h] at hopening
      exact hopening.trans ((scans_units hs huses [] body).trans
        ((scans_backslash hs huses _).trans (scans_unfinished hs huses (by decide) _)))
  · intro text rest h
    rw [← spelled_ofChar] at h
    have hscan := hdecoded _ rest h
    rwa [decoded_ofChar] at hscan

/-- The literal `"a\"\n"`, which has an escaped quote and an escaped letter in it. -/
theorem string_literal_decoded_escapes : ∃ s,
    synthesize exampleGrammar { name := "example" } flexTranslator = .ok s ∧
    s.description.winner? StartState.initial "\"a\\\"\\n\" x".toList =
      some (.ofState StartState.initial "\"\\\"\"" [.createBuffer, .begin StartState.string]) ∧
    Scans s.description (.initial "\"a\\\"\\n\" x".toList)
      [⟨BuiltinToken.string, some ⟨.string, .text ['a', '"', '\n']⟩, ['"']⟩]
      ⟨StartState.initial, [' ', 'x'], ⟨none, 1, [(0, .harvested)]⟩⟩ := by
  have hopen : ∃ s, synthesize exampleGrammar { name := "example" } flexTranslator = .ok s ∧
      s.description.winner? StartState.initial "\"a\\\"\\n\" x".toList =
        some (.ofState StartState.initial "\"\\\"\"" [.createBuffer, .begin StartState.string]) :=
    ⟨_, rfl, by decide +kernel⟩
  obtain ⟨s, hs, hwinner⟩ := hopen
  obtain ⟨u, hu, hdecoded, _, _⟩ := string_literal_decoded hs rfl (.refl _) rfl hwinner
  refine ⟨s, hs, hwinner, ?_⟩
  cases hu
  exact hdecoded [.plain 'a' (by decide), .escaped '"', .escaped 'n'] [' ', 'x'] rfl

end FlexSynth
