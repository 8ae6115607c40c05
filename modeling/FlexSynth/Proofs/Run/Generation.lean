import FlexSynth.Proofs.Json.Surrogates
import FlexSynth.Proofs.Lines.Sections
import FlexSynth.Proofs.Run.Resolution

/-!
# What a run generates

`Generated` lists what can come of reading a grammar and making a scanner of it, and
`generated_iff` says that a run generates just that. A scanner that has been made can always
be written out (`exists_text_of_synthesize`). What is generated depends on the grammar file only
(`produce_congr`) and not on what is logged (`produce_logging`).
-/

namespace FlexSynth

open Partial

/-! ## What can come of a grammar file -/

/-- What can come of the grammar file. -/
inductive Generated (options : RunOptions) (files : FileTree) :
    Except GenerationError Product → Prop
  | unreadable {e : FileError} : files.read options.input = .error e →
      Generated options files (.error (.unreadable e))
  | undecodable {octets : List UInt8} {e : Text.Utf8Error} :
      files.read options.input = .ok octets → Text.decode octets = .error e →
      Generated options files (.error (.undecodable e))
  | longInteger {source : String} {e : Text.LongInteger} :
      readSource files options.input = .ok source →
      LexicalGrammar.parse source options.input.name = .error (.longInteger e) →
      Generated options files (.error (.longInteger e))
  | rejected {source : String} {e : GrammarError} :
      readSource files options.input = .ok source →
      LexicalGrammar.parse source options.input.name = .error (.rejected e) →
      Generated options files (.error (.rejected e))
  | untranslatable {file : GrammarFile} {e : PatternError} :
      readGrammar files options.input = .ok file →
      synthesize file.grammar options.generator flexTranslator = .error e →
      Generated options files (.error (.untranslatable e))
  | made {file : GrammarFile} {s : Synthesis} {text : String} :
      readGrammar files options.input = .ok file →
      synthesize file.grammar options.generator flexTranslator = .ok s →
      s.description.text = .ok text →
      Generated options files (.ok ⟨text, s.symbols, encodeError? file.surrogates text⟩)

section

variable {options : RunOptions} {files other : FileTree} {g : LexicalGrammar}
  {file : GrammarFile} {s : Synthesis} {text : String}

/-- A grammar that has been parsed comes from a document. -/
theorem decode_of_parse {source filename : String}
    (h : LexicalGrammar.parse source filename = .ok g) :
    ∃ document, Json.decode source = .ok document ∧
      LexicalGrammar.ofJson document filename = .ok g := by
  unfold LexicalGrammar.parse at h
  split at h
  · next document hdecode => exact ⟨document, hdecode, mapError_eq_ok_iff.mp h⟩
  · cases h
  · cases h

/-- A parser that fails so has met the integer in the document. -/
theorem decode_of_parse_longInteger {source filename : String} {e : Text.LongInteger}
    (h : LexicalGrammar.parse source filename = .error (.longInteger e)) :
    ∃ offset, Json.decode source = .error ⟨.longInteger e, offset⟩ := by
  unfold LexicalGrammar.parse at h
  split at h
  · obtain ⟨_, _, hfault⟩ := mapError_eq_error_iff.mp h
    cases hfault
  · cases h
  · next offset hdecode =>
    cases h
    exact ⟨offset, hdecode⟩

theorem ofJson_of_parse {source filename : String}
    (h : LexicalGrammar.parse source filename = .ok g) :
    ∃ document, LexicalGrammar.ofJson document filename = .ok g := by
  obtain ⟨document, _, hjson⟩ := decode_of_parse h
  exact ⟨document, hjson⟩

/-- What is generated depends on the content of the grammar file only. -/
theorem produce_congr (h : other.read options.input = files.read options.input) :
    produce options other = produce options files := by
  unfold produce readGrammar readSource
  rw [h]

theorem generated_of_readGrammar_error {e : GenerationError}
    (h : readGrammar files options.input = .error e) : Generated options files (.error e) := by
  rcases bind_eq_error_iff.mp h with h | ⟨source, hsource, h⟩
  · rcases bind_eq_error_iff.mp h with h | ⟨octets, hread, h⟩
    · obtain ⟨fault, hread, rfl⟩ := mapError_eq_error_iff.mp h
      exact .unreadable hread
    · rcases bind_eq_error_iff.mp h with h | ⟨source, _, h⟩
      · obtain ⟨fault, hdecode, rfl⟩ := mapError_eq_error_iff.mp h
        exact .undecodable (mapError_eq_ok_iff.mp hread) hdecode
      · cases h
  · rcases bind_eq_error_iff.mp h with h | ⟨grammar, _, h⟩
    · obtain ⟨fault, hparse, rfl⟩ := mapError_eq_error_iff.mp h
      cases fault with
      | rejected e => exact .rejected hsource hparse
      | longInteger e => exact .longInteger hsource hparse
    · cases h

theorem generated (options : RunOptions) (files : FileTree) :
    Generated options files (produce options files).2 := by
  unfold produce
  cases hg : readGrammar files options.input with
  | error e => exact generated_of_readGrammar_error hg
  | ok file =>
    show Generated options files (produceFrom options file).2
    unfold produceFrom
    cases hs : synthesize file.grammar options.generator flexTranslator with
    | error e => exact .untranslatable hg hs
    | ok s =>
      obtain ⟨text, htext, _⟩ := exists_text_of_synthesize hs
      simp only [htext]
      exact .made hg hs htext

theorem generated_iff {made : Except GenerationError Product} :
    Generated options files made ↔ (produce options files).2 = made := by
  constructor
  · intro h
    cases h with
    | unreadable hread =>
      simp [produce, readGrammar, readSource, hread, Except.mapError, bind, Except.bind]
    | undecodable hread hdecode =>
      simp [produce, readGrammar, readSource, hread, hdecode, Except.mapError, bind, Except.bind]
    | longInteger hsource hparse | rejected hsource hparse =>
      simp [produce, readGrammar, hsource, hparse, Except.mapError, bind, Except.bind,
        GenerationError.ofLoad]
    | untranslatable hg hs => simp [produce, produceFrom, hg, hs]
    | made hg hs htext => simp [produce, produceFrom, hg, hs, htext]
  · rintro rfl
    exact generated options files

end

end FlexSynth
