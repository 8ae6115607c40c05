import FlexSynth.Editor
import FlexSynth.Proofs.Json.Faults
import FlexSynth.Proofs.Json.LineEnds
import FlexSynth.Proofs.Names
import FlexSynth.Proofs.Refusal
import FlexSynth.Proofs.Run.Single
import FlexSynth.Proofs.Text.Utf8

/-!
# Editors and runs

An editor is told of a text what a run says of a file that holds it (`editor_agrees`): nothing
if the run makes its outputs, an error if it rejects the grammar, and a warning if it cannot
translate an expression, with the same message each time. There are three ways for them to part,
and none leads anywhere. A run reads the text with its line ends unified, which makes no
difference to what it decodes to. The two have different names for the scanner, but whether a
grammar can be translated does not depend on the options. And the name that the editor makes up
can always be used.

Two kinds of text are left. An integer that is not converted ends both from inside, so the editor
gets no answer. And a run that has made its outputs may not be able to encode them, of which the
editor knows nothing; the text has a surrogate then that stands alone.
-/

namespace FlexSynth

open Partial
open Text (unifyNewlines unifyNewlines_of_not_mem)

/-! ## Grammars and line ends -/

section

variable {source filename filename' : String} {g : LexicalGrammar} {e : GrammarError}

/-- The grammar of a text, under any name of the file, and what a run makes of it after the line
ends have been unified: the same grammar, the same message at the same place, or the same
integer. -/
inductive SameGrammar : Except LoadFault LexicalGrammar → Except LoadFault LexicalGrammar → Prop
  | loaded (g : LexicalGrammar) : SameGrammar (.ok g) (.ok g)
  | rejected {e e' : GrammarError} : e.report.message = e'.report.message →
      e.report.place = e'.report.place →
      SameGrammar (.error (.rejected e)) (.error (.rejected e'))
  | longInteger (e : Text.LongInteger) :
      SameGrammar (.error (.longInteger e)) (.error (.longInteger e))

theorem SameGrammar.eq_ok {x : Except LoadFault LexicalGrammar}
    (h : SameGrammar (.ok g) x) : x = .ok g := by
  cases h
  rfl

theorem SameGrammar.exists_error {x : Except LoadFault LexicalGrammar}
    (h : SameGrammar (.error (.rejected e)) x) : ∃ e', x = .error (.rejected e') ∧
      e.report.message = e'.report.message ∧ e.report.place = e'.report.place := by
  cases h with
  | rejected hmessage hplace => exact ⟨_, rfl, hmessage, hplace⟩

theorem SameGrammar.eq_longInteger {x : Except LoadFault LexicalGrammar} {e : Text.LongInteger}
    (h : SameGrammar (.error (.longInteger e)) x) : x = .error (.longInteger e) := by
  cases h
  rfl

theorem sameGrammar_ofJson (document : Json) : SameGrammar
    ((LexicalGrammar.ofJson document filename).mapError .rejected)
    ((LexicalGrammar.ofJson document filename').mapError .rejected) := by
  unfold LexicalGrammar.ofJson
  cases grammarOf document with
  | ok g => exact .loaded g
  | error v => exact .rejected rfl rfl

theorem sameGrammar_unifyNewlines (source filename filename' : String) : SameGrammar
    (LexicalGrammar.parse source filename)
    (LexicalGrammar.parse (String.ofList (unifyNewlines source.toList)) filename') := by
  have hdecode := Json.decode_unifyNewlines source
  unfold LexicalGrammar.parse
  cases h : Json.decode source with
  | ok document =>
    cases h' : Json.decode (String.ofList (unifyNewlines source.toList)) with
    | ok document' =>
      rw [h, h'] at hdecode
      cases hdecode
      exact sameGrammar_ofJson document
    | error stop =>
      rw [h, h'] at hdecode
      cases hdecode
  | error stop =>
    cases h' : Json.decode (String.ofList (unifyNewlines source.toList)) with
    | ok document' =>
      rw [h, h'] at hdecode
      cases hdecode
    | error stop' =>
      rw [h, h'] at hdecode
      have hfault : stop'.fault = stop.fault := Except.error.inj hdecode
      obtain ⟨fault, offset⟩ := stop
      obtain ⟨fault', offset'⟩ := stop'
      cases hfault
      cases fault with
      | malformed fault => exact .rejected rfl rfl
      | longInteger e => exact .longInteger e

/-- A rejection with a line and a column is that of a syntax error. An editor counts from zero where
the report counts from one. -/
theorem position_of_parse {e' : GrammarError} {line column : Nat}
    (h : LexicalGrammar.parse source filename = .error (.rejected e))
    (h' : LexicalGrammar.parse source filename' = .error (.rejected e'))
    (hline : e.report.line = some (line : Int)) (hcolumn : e.report.column = some (column : Int)) :
    1 ≤ line ∧ 1 ≤ column ∧ e.report.location = s!"{filename}:{line}:{column}" ∧
      e'.position = ⟨line - 1, column - 1⟩ := by
  unfold LexicalGrammar.parse LexicalGrammar.ofJson at h h'
  cases hdecode : Json.decode source with
  | ok document =>
    simp only [hdecode] at h
    cases hgrammar : grammarOf document with
    | ok g =>
      rw [hgrammar] at h
      cases h
    | error v =>
      rw [hgrammar] at h
      cases h
      cases hline
  | error stop =>
    obtain ⟨fault, offset⟩ := stop
    cases fault with
    | malformed fault =>
      simp only [hdecode] at h h'
      cases h
      cases h'
      obtain rfl := Int.ofNat.inj (Option.some.inj hline)
      obtain rfl := Int.ofNat.inj (Option.some.inj hcolumn)
      exact ⟨Nat.succ_pos _, Nat.succ_pos _, rfl, rfl⟩
    | longInteger e =>
      simp only [hdecode] at h
      cases h

theorem parse_of_longInteger {e : Text.LongInteger} {offset : Nat} (filename : String)
    (h : Json.decode source = .error ⟨.longInteger e, offset⟩) :
    LexicalGrammar.parse source filename = .error (.longInteger e) := by
  unfold LexicalGrammar.parse
  rw [h]

theorem name_ne_empty_of_parse (h : LexicalGrammar.parse source filename = .ok g) :
    ∀ pragma ∈ g.tokens, pragma.name ≠ "" := by
  obtain ⟨document, hdocument⟩ := ofJson_of_parse h
  exact (ofJson_eq_ok_iff.mp hdocument).name_ne_empty

end

/-! ## Editors -/

theorem severity_diagnostic {e : PatternError} (source : List Char) :
    (e.diagnostic source).severity = .warning := by
  unfold PatternError.diagnostic
  split <;> rfl

theorem message_diagnostic {e : PatternError} (source : List Char) :
    (e.diagnostic source).message = e.fault.message := by
  unfold PatternError.diagnostic
  split <;> rfl

section

variable {uri source : String} {g : LexicalGrammar}

theorem validate_of_rejected {e : GrammarError}
    (h : LexicalGrammar.parse source (fileNameOf uri) = .error (.rejected e)) :
    validate uri source = .ok [⟨uri, [e.diagnostic]⟩] := by
  unfold validate diagnose
  rw [h]
  rfl

theorem validate_of_longInteger {e : Text.LongInteger}
    (h : LexicalGrammar.parse source (fileNameOf uri) = .error (.longInteger e)) :
    validate uri source = .error (.longInteger e) := by
  unfold validate diagnose
  rw [h]
  rfl

/-- The name that is made up from an address can be used, so there are options for every
grammar. -/
theorem validate_of_loaded (h : LexicalGrammar.parse source (fileNameOf uri) = .ok g) :
    ∃ options, validate uri source =
      match synthesize g options flexTranslator with
      | .ok _ => .ok [⟨uri, []⟩]
      | .error e => .ok [⟨uri, [e.diagnostic source.toList]⟩] := by
  have hchecked (name : String) (hname : isCIdentifier name = true) :
      GeneratorOptions.checked { name } = .ok { name } := by
    unfold GeneratorOptions.checked
    rw [if_pos hname]
  refine ⟨{ name := defaultName (.ofString (fileNameOf uri)) }, ?_⟩
  unfold validate diagnose
  simp only [h, hchecked _ (isCIdentifier_defaultName _)]
  dsimp only [Except.mapError, bind, Except.bind]
  cases synthesize g _ flexTranslator <;> rfl

end

/-! ## Runs -/

section

variable {options : RunOptions} {files : FileTree} {file : GrammarFile}

/-- A file that holds the encoding of a text is read as that text, but for its line ends. -/
theorem readSource_of_encoded {source : String} {p : Path}
    (h : files.read p = .ok (Text.encode source)) :
    readSource files p = .ok (String.ofList (unifyNewlines source.toList)) := by
  unfold readSource
  rw [h]
  dsimp only [Except.mapError, bind, Except.bind]
  rw [Text.decode_encode]
  rfl

theorem runOnce_of_rejected {e : GrammarError}
    (h : readGrammar files options.input = .error (.rejected e)) :
    (runOnce options files).ending = .exit 1 ∧
      (runOnce options files).output = ⟨"", e.report.format ++ "\n"⟩ := by
  unfold runOnce produce
  simp [h]

theorem runOnce_of_longInteger {e : Text.LongInteger}
    (h : readGrammar files options.input = .error (.longInteger e)) :
    (runOnce options files).ending = .failed (.longInteger e) := by
  unfold runOnce produce
  rw [h]

theorem runOnce_of_untranslatable {e : PatternError}
    (h : readGrammar files options.input = .ok file)
    (he : tokenRules file.grammar.symbolTable flexTranslator file.grammar.tokens = .error e) :
    (runOnce options files).ending = .exit 2 ∧
      (runOnce options files).output =
        ⟨"", logText options.verbose (startProgress file.grammar) ++ e.format ++ "\n"⟩ := by
  unfold runOnce produce produceFrom
  simp [h, synthesize_eq_error_iff.mpr he]

/-- A run that can make its outputs and has the files for them succeeds, unless the description
cannot be encoded. -/
theorem runOnce_of_translatable {tokens : List Rule} (hwritable : options.Writable files)
    (h : readGrammar files options.input = .ok file)
    (htokens : tokenRules file.grammar.symbolTable flexTranslator file.grammar.tokens =
      .ok tokens) :
    (runOnce options files).ending = .exit 0 ∨
      file.surrogates ≠ [] ∧ ∃ e, (runOnce options files).ending = .failed (.unencodable e) := by
  obtain ⟨s, hs⟩ := exists_synthesis htokens options.generator
  obtain ⟨text, htext, _⟩ := exists_text_of_synthesize hs
  have heffect := congrArg RunEffect.ending (effect_runOnce options files)
  rw [generated_iff.mp (.made h hs htext)] at heffect
  have hending : (runOnce options files).ending = _ := heffect
  rw [hending]
  cases hencodable : encodeError? file.surrogates text with
  | none =>
    exact .inl (Delivery.ending_eq_exit_iff.mpr ⟨deliver_failure_iff.mpr ⟨rfl, hwritable⟩, rfl⟩)
  | some e =>
    refine .inr ⟨?_, e, ?_⟩
    · rintro hnone
      rw [hnone] at hencodable
      cases hencodable
    · rw [RunOptions.effectOf, Delivery.ending, deliver_failure_of_unencodable rfl hwritable]

end

/-! ## Agreement -/

/-- A run with nothing about it but the grammar file: it does not watch, finds no configuration,
has a name that can be used or none, writes to the standard output, and can write the symbols
if they are asked for. -/
structure PlainRun (a : Arguments) (files : FileTree) : Prop where
  single : a.watch = false
  no_config : loadConfig a files = .ok []
  name : ∀ value ∈ a.name, ∃ name, value = .text name ∧ isCIdentifier name = true
  to_stdout : a.output.bind OptionValue.nonEmpty? = none
  symbols : ∀ path ∈ a.symbols.bind OptionValue.nonEmpty?, files.Accepts (.ofString path)

/-- What a run makes of a text that it reads from a file. -/
def asRead (source : String) : String :=
  String.ofList (unifyNewlines source.toList)

/-- The diagnostic shows the rejection that the run prints. Both have the message and the place of
what is wrong, and the run adds where in the file it is. For a text without carriage returns, that
is where the diagnostic starts. -/
def SameRejection (uri source : String) (a : Arguments) (d : Diagnostic) (t : Transcript) : Prop :=
  ∃ (e e' : GrammarError) (message place : String),
    LexicalGrammar.parse source (fileNameOf uri) = .error (.rejected e') ∧
    LexicalGrammar.parse (asRead source) a.inputPath.name = .error (.rejected e) ∧
    (e'.report.message = message ∧ e.report.message = message) ∧
    (e'.report.place = place ∧ e.report.place = place) ∧
    d.message = (if place = "" then message else message ++ " (in " ++ place ++ ")") ∧
    t.rest.stdout = "" ∧
    t.rest.stderr = "error: " ++ message ++ "\n  --> " ++ e.report.location ++
      (if place = "" then "" else "\n   | in " ++ place) ++ "\n" ∧
    ('\r' ∉ source.toList → ∀ line column : Nat, e.report.line = some (line : Int) →
      e.report.column = some (column : Int) → 1 ≤ line ∧ 1 ≤ column ∧
        e.report.location = s!"{a.inputPath.name}:{line}:{column}" ∧
        d.start = ⟨line - 1, column - 1⟩)

/-- The diagnostic shows the refusal that the run prints behind its log: that of the first token
category whose expression has no pattern, which has a name. -/
def SameRefusal (uri source : String) (a : Arguments) (d : Diagnostic) (t : Transcript) : Prop :=
  ∃ (g : LexicalGrammar) (e : PatternError) (message token : String),
    LexicalGrammar.parse source (fileNameOf uri) = .ok g ∧
    FirstRefusal flexTranslator g.tokens e ∧ e.fault.message = message ∧
    e.token = some token ∧ token ≠ "" ∧ d = e.diagnostic source.toList ∧ d.message = message ∧
    t.rest.stdout = "" ∧
    t.rest.stderr = logText a.verbose (startProgress g) ++ "error: " ++ message ++
      "\n  --> token " ++ token ++ "\n"

/-- The diagnostics of a text and a run on a file that holds it tell the same. -/
structure Agreement (uri source : String) (a : Arguments) (ds : List Diagnostic)
    (t : Transcript) : Prop where
  /-- A run that has made its outputs may still not be able to encode them. -/
  success : ds = [] ↔ t.ending = .exit 0 ∨ ∃ e, t.ending = .failed (.unencodable e)
  surrogates : (∃ e, t.ending = .failed (.unencodable e)) →
    Json.loneSurrogates (asRead source) ≠ []
  rejection : (∃ d, ds = [d] ∧ d.severity = .error) ↔ t.ending = .exit 1
  refusal : (∃ d, ds = [d] ∧ d.severity = .warning) ↔ t.ending = .exit 2
  same_rejection : ∀ d, ds = [d] → d.severity = .error → SameRejection uri source a d t
  same_refusal : ∀ d, ds = [d] → d.severity = .warning → SameRefusal uri source a d t

section

variable {a : Arguments} {files : FileTree} {options : RunOptions} {source : String}

theorem PlainRun.chosenName (h : PlainRun a files) :
    ∃ name, FlexSynth.chosenName a [] = .text name ∧ isCIdentifier name = true := by
  unfold FlexSynth.chosenName
  cases hname : a.name with
  | none => exact ⟨_, rfl, isCIdentifier_defaultName a.inputPath⟩
  | some value => exact h.name value hname

/-- A plain run has options, and can write whatever it makes. -/
theorem PlainRun.resolves (h : PlainRun a files) : ∃ options, Resolves a files options ∧
    options.watch = false ∧ options.input = a.inputPath ∧ options.verbose = a.verbose ∧
      options.Writable files := by
  obtain ⟨name, hchosen, hname⟩ := h.chosenName
  have hresolve : RunOptions.resolve a [] = .ok (optionsNamed a [] name) :=
    resolve_eq_ok_iff.mpr ⟨name, hchosen, (isCIdentifier_eq_hasNameForm name).symm.trans hname, rfl⟩
  refine ⟨_, ⟨[], h.no_config, hresolve⟩, h.single, rfl, rfl, ?_, ?_⟩
  · rw [optionsNamed, h.to_stdout]
    simp
  · have hsymbols : chosenSymbols a [] = a.symbols.bind OptionValue.nonEmpty? := by
      unfold chosenSymbols
      cases a.symbols.bind OptionValue.nonEmpty? <;> rfl
    intro q hq
    rw [optionsNamed, hsymbols] at hq
    obtain ⟨path, hpath, rfl⟩ := Option.map_eq_some_iff.mp hq
    exact h.symbols path hpath

end

/-! ### The cases -/

section

variable {uri source : String} {a : Arguments} {t : Transcript}

theorem agreement_of_success (h : t.ending = .exit 0 ∨
    Json.loneSurrogates (asRead source) ≠ [] ∧ ∃ e, t.ending = .failed (.unencodable e)) :
    Agreement uri source a [] t := by
  rcases h with h | ⟨hsurrogates, e, h⟩
  · constructor <;> simp [h]
  · constructor <;> simp [h, hsurrogates]

theorem agreement_of_rejection {e : GrammarError} (h : t.ending = .exit 1)
    (hsame : SameRejection uri source a e.diagnostic t) :
    Agreement uri source a [e.diagnostic] t where
  success := by simp [h]
  surrogates := by simp [h]
  rejection := by simp [h, GrammarError.diagnostic]
  refusal := by simp [h, GrammarError.diagnostic]
  same_rejection := by
    rintro _ ⟨⟩ _
    exact hsame
  same_refusal := by
    rintro _ ⟨⟩ hseverity
    cases hseverity

theorem agreement_of_refusal {e : PatternError} (h : t.ending = .exit 2)
    (hsame : SameRefusal uri source a (e.diagnostic source.toList) t) :
    Agreement uri source a [e.diagnostic source.toList] t where
  success := by simp [h]
  surrogates := by simp [h]
  rejection := by simp [h, severity_diagnostic]
  refusal := by simp [h, severity_diagnostic]
  same_rejection := by
    rintro _ ⟨⟩ hseverity
    rw [severity_diagnostic] at hseverity
    cases hseverity
  same_refusal := by
    rintro _ ⟨⟩ _
    exact hsame

end

/-! ### Messages -/

theorem GrammarError.note_eq (e : GrammarError) : e.note =
    if e.report.place = "" then e.report.message
    else e.report.message ++ " (in " ++ e.report.place ++ ")" := by
  unfold GrammarError.note
  by_cases hplace : e.report.place = ""
  · rw [if_pos hplace]
    simp [hplace]
  · rw [if_neg hplace, if_neg (by simpa using hplace)]
    rfl

theorem Report.format_eq (r : Report) : r.format = "error: " ++ r.message ++ "\n  --> " ++
    r.location ++ (if r.place = "" then "" else "\n   | in " ++ r.place) := by
  unfold Report.format
  by_cases hplace : r.place = ""
  · rw [if_pos hplace, String.append_empty]
    simp only [hplace]
    rfl
  · rw [if_neg hplace, if_neg (by simpa using hplace), ← String.append_assoc]
    rfl

theorem PatternError.format_eq {e : PatternError} {token : String} (h : e.token = some token)
    (hne : token ≠ "") :
    e.format = "error: " ++ e.fault.message ++ "\n  --> token " ++ token := by
  unfold PatternError.format
  rw [h]
  split
  · next hnone => cases hnone
  · next hempty =>
    cases hempty
    exact absurd rfl hne
  · next hsome =>
    cases hsome
    rfl

/-! ### All texts -/

section

variable {uri source : String} {a : Arguments} {words : List String} {shared : SharedTree}

/-- A plain run reads its text, but for the line ends, and makes what it can of it. -/
theorem PlainRun.runs (h : PlainRun a shared.tree) (hparse : Arguments.parse words = .ok (.run a))
    (hread : shared.tree.read a.inputPath = .ok (Text.encode source)) (edits : List Edit) :
    ∃ options, options.Writable shared.tree ∧ options.verbose = a.verbose ∧
      readGrammar shared.tree options.input =
        ((LexicalGrammar.parse (asRead source) a.inputPath.name).mapError .ofLoad).map
          (⟨·, Json.loneSurrogates (asRead source)⟩) ∧
      (runProgram words shared edits).ending = (runOnce options shared.tree).ending ∧
      (runProgram words shared edits).rest = (runOnce options shared.tree).output := by
  obtain ⟨options, hresolves, hsingle, hinput, hverbose, hwritable⟩ := h.resolves
  have hprepare : prepare words shared.tree = .ok options :=
    (prepare_of_parse hparse).trans (prepareOptions_eq_ok_iff.mpr hresolves)
  have hrun : runProgram words shared edits = ⟨[], (runOnce options shared.tree).output,
      (runOnce options shared.tree).ending, (runOnce options shared.tree).files⟩ := by
    unfold runProgram
    simp [hprepare, hsingle]
  refine ⟨options, hwritable, hverbose, ?_, congrArg Transcript.ending hrun,
    congrArg Transcript.rest hrun⟩
  rw [readGrammar, hinput, readSource_of_encoded hread, ← asRead]
  dsimp only [bind, Except.bind]
  cases (LexicalGrammar.parse (asRead source) a.inputPath.name).mapError GenerationError.ofLoad <;>
    rfl

theorem failed_of_longInteger {e : Text.LongInteger}
    (h : LexicalGrammar.parse source (fileNameOf uri) = .error (.longInteger e))
    (hparse : Arguments.parse words = .ok (.run a)) (hplain : PlainRun a shared.tree)
    (hread : shared.tree.read a.inputPath = .ok (Text.encode source)) (edits : List Edit) :
    (runProgram words shared edits).ending = .failed (.longInteger e) := by
  obtain ⟨options, _, _, hgrammar, hending, _⟩ := hplain.runs hparse hread edits
  have hsame := sameGrammar_unifyNewlines source (fileNameOf uri) a.inputPath.name
  rw [h] at hsame
  have hfailed : readGrammar shared.tree options.input = .error (.longInteger e) := by
    rw [hgrammar, asRead, hsame.eq_longInteger]
    rfl
  exact hending.trans (runOnce_of_longInteger hfailed)

/-- A text that the editor rejects is rejected by a run. -/
theorem agreement_of_rejected {e' : GrammarError}
    (h : LexicalGrammar.parse source (fileNameOf uri) = .error (.rejected e'))
    (hparse : Arguments.parse words = .ok (.run a)) (hplain : PlainRun a shared.tree)
    (hread : shared.tree.read a.inputPath = .ok (Text.encode source)) (edits : List Edit) :
    Agreement uri source a [e'.diagnostic] (runProgram words shared edits) := by
  obtain ⟨options, _, _, hgrammar, hending, hrest⟩ := hplain.runs hparse hread edits
  have hsame := sameGrammar_unifyNewlines source (fileNameOf uri) a.inputPath.name
  rw [h] at hsame
  obtain ⟨e, he, hmessage, hplace⟩ := hsame.exists_error
  have hrejected : readGrammar shared.tree options.input = .error (.rejected e) := by
    rw [hgrammar, asRead, he]
    rfl
  obtain ⟨hexit, houtput⟩ := runOnce_of_rejected hrejected
  refine agreement_of_rejection (hending.trans hexit) ⟨e, e', e'.report.message, e'.report.place, h,
    he, ⟨rfl, hmessage.symm⟩, ⟨rfl, hplace.symm⟩, e'.note_eq, ?_, ?_, ?_⟩
  · rw [hrest, houtput]
  · rw [hrest, houtput, hmessage, hplace, ← Report.format_eq]
  · intro hnone line column hline hcolumn
    rw [unifyNewlines_of_not_mem hnone, String.ofList_toList] at he
    exact position_of_parse he h hline hcolumn

/-- A text that the editor loads is loaded by a run. Whether there is a warning and whether the
run ends with the code 2 then both hang on the token categories. -/
theorem agreement_of_loaded {g : LexicalGrammar}
    (h : LexicalGrammar.parse source (fileNameOf uri) = .ok g)
    (hparse : Arguments.parse words = .ok (.run a)) (hplain : PlainRun a shared.tree)
    (hread : shared.tree.read a.inputPath = .ok (Text.encode source)) (edits : List Edit) :
    (∀ tokens, tokenRules g.symbolTable flexTranslator g.tokens = .ok tokens →
      Agreement uri source a [] (runProgram words shared edits)) ∧
    ∀ e, tokenRules g.symbolTable flexTranslator g.tokens = .error e →
      Agreement uri source a [e.diagnostic source.toList] (runProgram words shared edits) := by
  obtain ⟨options, hwritable, hverbose, hgrammar, hending, hrest⟩ := hplain.runs hparse hread edits
  have hsame := sameGrammar_unifyNewlines source (fileNameOf uri) a.inputPath.name
  rw [h] at hsame
  have hloaded : readGrammar shared.tree options.input =
      .ok ⟨g, Json.loneSurrogates (asRead source)⟩ := by
    rw [hgrammar, asRead, hsame.eq_ok]
    rfl
  constructor
  · intro tokens htokens
    refine agreement_of_success ?_
    rw [hending]
    exact runOnce_of_translatable hwritable hloaded htokens
  · intro e he
    obtain ⟨hexit, houtput⟩ := runOnce_of_untranslatable hloaded he
    obtain ⟨pragma, hpragma, htoken⟩ := token_of_tokenRules he
    have hne := name_ne_empty_of_parse h pragma hpragma
    refine agreement_of_refusal (hending.trans hexit) ⟨g, e, e.fault.message, pragma.name, h,
      tokenRules_eq_error_iff.mp he, rfl, htoken, hne, rfl, message_diagnostic source.toList, ?_, ?_⟩
    · rw [hrest, houtput]
    · rw [hrest, houtput, hverbose, PatternError.format_eq htoken hne]
      simp only [String.append_assoc]

end

/-- An editor tells of a text what a plain run tells of a file that holds it, if no integer in the
text is too long; such an integer ends both. -/
theorem editor_agrees (uri source : String) :
    (∀ e offset, Json.decode source = .error ⟨.longInteger e, offset⟩ →
      validate uri source = .error (.longInteger e) ∧
      ∀ words a shared edits, Arguments.parse words = .ok (.run a) → PlainRun a shared.tree →
        shared.tree.read a.inputPath = .ok (Text.encode source) →
        (runProgram words shared edits).ending = .failed (.longInteger e)) ∧
    ((∀ e offset, Json.decode source ≠ .error ⟨.longInteger e, offset⟩) →
      ∃ ds, validate uri source = .ok [⟨uri, ds⟩] ∧ ds.length ≤ 1 ∧
        ∀ words a shared edits, Arguments.parse words = .ok (.run a) → PlainRun a shared.tree →
          shared.tree.read a.inputPath = .ok (Text.encode source) →
          Agreement uri source a ds (runProgram words shared edits)) := by
  constructor
  · intro e offset hdecode
    have h := parse_of_longInteger (fileNameOf uri) hdecode
    exact ⟨validate_of_longInteger h, fun words a shared edits hparse hplain hread =>
      failed_of_longInteger h hparse hplain hread edits⟩
  · intro hread
    cases h : LexicalGrammar.parse source (fileNameOf uri) with
    | error fault =>
      cases fault with
      | rejected e =>
        exact ⟨_, validate_of_rejected h, Nat.le_refl 1,
          fun words a shared edits hparse hplain hread =>
            agreement_of_rejected h hparse hplain hread edits⟩
      | longInteger e =>
        obtain ⟨offset, hdecode⟩ := decode_of_parse_longInteger h
        exact absurd hdecode (hread e offset)
    | ok g =>
      obtain ⟨options, hvalidate⟩ := validate_of_loaded h
      cases htokens : tokenRules g.symbolTable flexTranslator g.tokens with
      | ok tokens =>
        obtain ⟨s, hs⟩ := exists_synthesis htokens options
        rw [hs] at hvalidate
        exact ⟨_, hvalidate, Nat.zero_le 1, fun words a shared edits hparse hplain hread =>
          (agreement_of_loaded h hparse hplain hread edits).1 tokens htokens⟩
      | error e =>
        rw [synthesize_eq_error_iff.mpr htokens] at hvalidate
        exact ⟨_, hvalidate, Nat.le_refl 1, fun words a shared edits hparse hplain hread =>
          (agreement_of_loaded h hparse hplain hread edits).2 e htokens⟩

/-- A text with a comma too many, and with both other kinds of line end. -/
def returnsSource : String :=
  "\x7b\"symbols\":\r\n[\"if\",\r]\x7d"

/-- A file that holds the text. -/
def returnsTree : FileTree where
  nodes := [(["work", "g.json"], .file (Text.encode returnsSource) 1)]

theorem editor_agrees_returns :
    ∃ ds, validate "file:///work/g.json" returnsSource = .ok [⟨"file:///work/g.json", ds⟩] ∧
      (runProgram ["g.json"] ⟨returnsTree, 1⟩ []).ending = .exit 1 ∧
      Agreement "file:///work/g.json" returnsSource { input := "g.json" } ds
        (runProgram ["g.json"] ⟨returnsTree, 1⟩ []) := by
  have hdecode : Json.decode returnsSource = .error ⟨.malformed .missingValue, 20⟩ :=
    Json.decode_of_fault (by decide +kernel)
  obtain ⟨ds, hvalidate, _, hagree⟩ := (editor_agrees "file:///work/g.json" returnsSource).2 (by
    rw [hdecode]
    rintro e offset ⟨⟩)
  have hparse : Arguments.parse ["g.json"] = .ok (.run { input := "g.json" }) := by
    decide +kernel
  have hplain : PlainRun { input := "g.json" } returnsTree := by
    constructor
    · rfl
    · rfl
    · rintro _ ⟨⟩
    · rfl
    · rintro _ ⟨⟩
  have hread : returnsTree.read (Arguments.inputPath { input := "g.json" }) =
      .ok (Text.encode returnsSource) := by
    decide +kernel
  exact ⟨ds, hvalidate, by decide +kernel, hagree _ _ ⟨returnsTree, 1⟩ [] hparse hplain hread⟩

/-- An integer with one digit too many, which is JSON and no grammar. -/
def longSource : String :=
  String.ofList ('1' :: List.replicate Text.maxDigits '1')

theorem editor_without_answer :
    validate "file:///work/g.json" longSource = .error (.longInteger ⟨4301⟩) := by
  have hdecode : Json.decode longSource =
      .error ⟨.longInteger ⟨('1' :: List.replicate Text.maxDigits '1').length⟩, 0⟩ :=
    Json.decode_of_longInteger (by decide) (by decide) (by simp) (by simp)
  rw [List.length_cons, List.length_replicate] at hdecode
  exact validate_of_longInteger (parse_of_longInteger _ hdecode)

end FlexSynth
