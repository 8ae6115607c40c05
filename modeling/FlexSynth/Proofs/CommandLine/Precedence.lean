import FlexSynth.Proofs.Run.Reported

/-!
# Where the options come from

Each option of a run has its own sources: the command line, else the configuration, else a
default. `Chosen` is that order, and `NameChosen`, `HeaderChosen`, `CharErrorsChosen` and
`SymbolsChosen` say for each option what counts as given and as configured. A section that is no
table and a value of another type configure nothing.

The options of a run are exactly the ones that are chosen (`resolve_eq_ok_iff`), and a run is
refused for its name exactly when the chosen name is no C identifier; a name that a stronger
source overrides is not looked at (`options_merged`). One case is apart: an option that is given
as a lone `--` loses its value. Of a name nothing is left then, and it is not refused as other
names are (`lost_name_not_refused`).
-/

namespace FlexSynth

/-! ## Precedence -/

/-- What is chosen for an option: what is given, else what is configured, else the standard. -/
inductive Chosen {α : Type} (given configured : α → Prop) (standard : α) : α → Prop
  | given {v : α} : given v → Chosen given configured standard v
  | configured {v : α} : (∀ w, ¬given w) → configured v → Chosen given configured standard v
  | standard : (∀ w, ¬given w) → (∀ w, ¬configured w) → Chosen given configured standard standard

/-- A section of the configuration is a table and has the value under the key. -/
def Configured (config : Toml.Table) (part key : String) (value : Toml.Value) : Prop :=
  ∃ fields : Toml.Table, config.get? part = some (.table fields) ∧ fields.get? key = some value

def NameChosen (a : Arguments) (config : Toml.Table) : OptionValue → Prop :=
  Chosen (fun value => a.name = some value)
    (fun value => ∃ text, Configured config "scanner" "name" (.string text) ∧ value = .text text)
    (.text (defaultName a.inputPath))

/-- A header of the scanner, from its option and its key in the configuration. -/
def HeaderChosen (argument : Option OptionValue) (config : Toml.Table) (key standard : String) :
    Header → Prop :=
  Chosen (fun header => ∃ value, argument = some value ∧ header = headerOf value)
    (fun header => ∃ text, Configured config "scanner" key (.string text) ∧ header = .file text)
    (.file standard)

/-- The option can only turn the rules off. -/
def CharErrorsChosen (a : Arguments) (config : Toml.Table) : Bool → Prop :=
  Chosen (fun on => a.noCharErrors = true ∧ on = false)
    (fun on => Configured config "scanner" "char_literal_errors" (.bool on)) true

/-- An empty value on the command line counts as none; one in the configuration counts. -/
def SymbolsChosen (a : Arguments) (config : Toml.Table) : Option Path → Prop :=
  Chosen (fun path => ∃ text, a.symbols = some (.text text) ∧ text ≠ "" ∧
      path = some (.ofString text))
    (fun path => ∃ text, Configured config "output" "symbols" (.string text) ∧
      path = some (.ofString text))
    none

/-- The options are the ones that are chosen. -/
structure Merged (a : Arguments) (config : Toml.Table) (options : RunOptions) : Prop where
  name : NameChosen a config (.text options.generator.name)
  parserHeader : HeaderChosen a.parserHeader config "parser_header" "Parser.h"
    options.generator.parserHeader
  bufferHeader : HeaderChosen a.bufferHeader config "buffer_header" "Buffer.h"
    options.generator.bufferHeader
  charErrors : CharErrorsChosen a config options.generator.charLiteralErrors
  symbols : SymbolsChosen a config options.symbols
  input : options.input = .ofString a.input
  output : options.output = (a.output.bind OptionValue.nonEmpty?).map .ofString
  switches : options.watch = a.watch ∧ options.debug = a.debug ∧ options.verbose = a.verbose

/-- Two configurations configure the same, whatever else they hold. -/
structure SameConfigured (config other : Toml.Table) : Prop where
  strings : ∀ key ∈ ["name", "parser_header", "buffer_header"], ∀ text,
    Configured other "scanner" key (.string text) ↔ Configured config "scanner" key (.string text)
  charErrors : ∀ on, Configured other "scanner" "char_literal_errors" (.bool on) ↔
    Configured config "scanner" "char_literal_errors" (.bool on)
  symbols : ∀ text, Configured other "output" "symbols" (.string text) ↔
    Configured config "output" "symbols" (.string text)

/-! ## Choosing -/

section

variable {α : Type} {given configured : α → Prop} {standard v : α} {given? configured? : Option α}

theorem eq_none_of_forall_not (h : ∀ w, given w ↔ given? = some w) (hnone : ∀ w, ¬given w) :
    given? = none :=
  Option.eq_none_iff_forall_ne_some.mpr fun w hw => hnone w ((h w).mpr hw)

theorem chosen_iff (hgiven : ∀ w, given w ↔ given? = some w)
    (hconfigured : ∀ w, configured w ↔ configured? = some w) :
    Chosen given configured standard v ↔ v = given?.getD (configured?.getD standard) := by
  constructor
  · rintro (h | ⟨hnone, h⟩ | ⟨hnone, hnone'⟩)
    · rw [(hgiven v).mp h, Option.getD_some]
    · rw [eq_none_of_forall_not hgiven hnone, Option.getD_none, (hconfigured v).mp h,
        Option.getD_some]
    · rw [eq_none_of_forall_not hgiven hnone, eq_none_of_forall_not hconfigured hnone',
        Option.getD_none, Option.getD_none]
  · rintro rfl
    cases given? with
    | some w => exact .given ((hgiven w).mpr rfl)
    | none =>
      have hnone (w : α) : ¬given w := by simp [hgiven]
      cases configured? with
      | some w => exact .configured hnone ((hconfigured w).mpr rfl)
      | none => exact .standard hnone (by simp [hconfigured])

end

/-! ## Configurations -/

section

variable {config fields : Toml.Table} {part key text : String} {on : Bool}

theorem Toml.Table.table?_eq_some_iff :
    config.table? key = some fields ↔ config.get? key = some (.table fields) := by
  unfold table?
  split
  · next found h => simp [h]
  · next hother => exact iff_of_false nofun (hother fields)

theorem Toml.Table.string?_eq_some_iff :
    fields.string? key = some text ↔ fields.get? key = some (.string text) := by
  unfold string?
  split
  · next found h => simp [h]
  · next hother => exact iff_of_false nofun (hother text)

theorem Toml.Table.bool?_eq_some_iff :
    fields.bool? key = some on ↔ fields.get? key = some (.bool on) := by
  unfold bool?
  split
  · next found h => simp [h]
  · next hother => exact iff_of_false nofun (hother on)

theorem configString?_eq_some_iff :
    configString? config part key = some text ↔ Configured config part key (.string text) := by
  unfold configString? Configured
  simp only [Option.bind_eq_bind, Option.bind_eq_some_iff, Toml.Table.table?_eq_some_iff,
    Toml.Table.string?_eq_some_iff]

theorem configBool?_eq_some_iff :
    configBool? config part key = some on ↔ Configured config part key (.bool on) := by
  unfold configBool? Configured
  simp only [Option.bind_eq_bind, Option.bind_eq_some_iff, Toml.Table.table?_eq_some_iff,
    Toml.Table.bool?_eq_some_iff]

end

/-! ## The options one by one -/

section

variable {a : Arguments} {config other : Toml.Table} {options : RunOptions}

theorem nameChosen_iff {value : OptionValue} :
    NameChosen a config value ↔ value = chosenName a config := by
  unfold NameChosen chosenName
  rw [← Option.getD_map OptionValue.text]
  refine chosen_iff (fun _ => Iff.rfl) fun w => ?_
  simp only [Option.map_eq_some_iff, configString?_eq_some_iff, eq_comm]

theorem headerChosen_iff {argument : Option OptionValue} {key standard : String}
    {header : Header} : HeaderChosen argument config key standard header ↔
      header = chosenHeader argument config key standard := by
  have hheader : chosenHeader argument config key standard =
      (argument.map headerOf).getD
        (((configString? config "scanner" key).map .file).getD (.file standard)) := by
    unfold chosenHeader
    rw [← Option.getD_map headerOf, headerOf, ← Option.getD_map Header.file]
  rw [hheader]
  refine chosen_iff (fun w => ?_) fun w => ?_
  · simp only [Option.map_eq_some_iff, eq_comm]
  · simp only [Option.map_eq_some_iff, configString?_eq_some_iff, eq_comm]

theorem charErrorsChosen_iff {on : Bool} :
    CharErrorsChosen a config on ↔ on = chosenCharErrors a config := by
  have hon : chosenCharErrors a config = (if a.noCharErrors then some false else none).getD
      ((configBool? config "scanner" "char_literal_errors").getD true) := by
    unfold chosenCharErrors
    split <;> rfl
  rw [hon]
  refine chosen_iff (fun w => ?_) fun w => configBool?_eq_some_iff.symm
  cases a.noCharErrors <;> simp [eq_comm]

theorem nonEmpty?_eq_some_iff {value : OptionValue} {text : String} :
    value.nonEmpty? = some text ↔ value = .text text ∧ text ≠ "" := by
  cases value with
  | empty => simp [OptionValue.nonEmpty?]
  | text value =>
    show (if value.isEmpty then none else some value) = some text ↔ _
    rw [OptionValue.text.injEq]
    constructor
    · intro h
      split at h
      · cases h
      · next hempty =>
        cases h
        exact ⟨rfl, fun h => hempty (String.isEmpty_iff.mpr h)⟩
    · rintro ⟨rfl, hempty⟩
      exact if_neg fun h => hempty (String.isEmpty_iff.mp h)

theorem symbolsChosen_iff {path : Option Path} :
    SymbolsChosen a config path ↔ path = (chosenSymbols a config).map .ofString := by
  have hpath : (chosenSymbols a config).map .ofString =
      ((a.symbols.bind OptionValue.nonEmpty?).map fun text => some (Path.ofString text)).getD
        (((configString? config "output" "symbols").map fun text => some (.ofString text)).getD
          none) := by
    unfold chosenSymbols
    cases a.symbols.bind OptionValue.nonEmpty? with
    | some text => rfl
    | none => cases configString? config "output" "symbols" <;> rfl
  rw [hpath]
  refine chosen_iff (fun w => ?_) fun w => ?_
  · simp only [Option.map_eq_some_iff, Option.bind_eq_some_iff, nonEmpty?_eq_some_iff]
    constructor
    · rintro ⟨text, hgiven, hempty, rfl⟩
      exact ⟨text, ⟨_, hgiven, rfl, hempty⟩, rfl⟩
    · rintro ⟨text, ⟨_, hgiven, rfl, hempty⟩, rfl⟩
      exact ⟨text, hgiven, hempty, rfl⟩
  · simp only [Option.map_eq_some_iff, configString?_eq_some_iff, @eq_comm _ w]

/-! ## All options -/

theorem merged_iff : Merged a config options ↔
    chosenName a config = .text options.generator.name ∧
      options = optionsNamed a config options.generator.name := by
  constructor
  · intro h
    refine ⟨(nameChosen_iff.mp h.name).symm, ?_⟩
    obtain ⟨input, output, symbols, ⟨name, parserHeader, bufferHeader, charErrors⟩, watch, debug,
      verbose⟩ := options
    obtain ⟨hwatch, hdebug, hverbose⟩ := h.switches
    simp only [optionsNamed, RunOptions.mk.injEq]
    refine ⟨h.input, h.output, symbolsChosen_iff.mp h.symbols, ?_, hwatch, hdebug, hverbose⟩
    simp only [chosenGenerator, GeneratorOptions.mk.injEq, true_and]
    exact ⟨headerChosen_iff.mp h.parserHeader, headerChosen_iff.mp h.bufferHeader,
      charErrorsChosen_iff.mp h.charErrors⟩
  · rintro ⟨hname, hoptions⟩
    exact {
      name := nameChosen_iff.mpr hname.symm
      parserHeader := headerChosen_iff.mpr (by rw [hoptions]; rfl)
      bufferHeader := headerChosen_iff.mpr (by rw [hoptions]; rfl)
      charErrors := charErrorsChosen_iff.mpr (by rw [hoptions]; rfl)
      symbols := symbolsChosen_iff.mpr (by rw [hoptions]; rfl)
      input := by rw [hoptions]; rfl
      output := by rw [hoptions]; rfl
      switches := by rw [hoptions]; exact ⟨rfl, rfl, rfl⟩ }

theorem resolve_eq_ok_iff_merged : RunOptions.resolve a config = .ok options ↔
    Merged a config options ∧ isCIdentifier options.generator.name = true := by
  rw [resolve_eq_ok_iff, merged_iff, isCIdentifier_eq_hasNameForm]
  constructor
  · rintro ⟨name, hname, hform, rfl⟩
    exact ⟨⟨hname, rfl⟩, hform⟩
  · rintro ⟨⟨hname, hoptions⟩, hform⟩
    exact ⟨options.generator.name, hname, hform, hoptions⟩

/-- Only what is configured for an option makes a difference. -/
theorem resolve_congr (h : SameConfigured config other) :
    RunOptions.resolve a other = RunOptions.resolve a config := by
  have hstring (key : String) (hkey : key ∈ ["name", "parser_header", "buffer_header"]) :
      configString? other "scanner" key = configString? config "scanner" key := by
    refine Option.ext fun text => ?_
    rw [configString?_eq_some_iff, configString?_eq_some_iff]
    exact h.strings key hkey text
  have hbool : configBool? other "scanner" "char_literal_errors" =
      configBool? config "scanner" "char_literal_errors" := by
    refine Option.ext fun on => ?_
    rw [configBool?_eq_some_iff, configBool?_eq_some_iff]
    exact h.charErrors on
  have hsymbols : configString? other "output" "symbols" =
      configString? config "output" "symbols" := by
    refine Option.ext fun text => ?_
    rw [configString?_eq_some_iff, configString?_eq_some_iff]
    exact h.symbols text
  have hname : chosenName a other = chosenName a config := by
    unfold chosenName
    rw [hstring "name" (by decide)]
  have hoptions (name : String) : optionsNamed a other name = optionsNamed a config name := by
    unfold optionsNamed chosenGenerator chosenHeader chosenCharErrors chosenSymbols
    rw [hstring "parser_header" (by decide), hstring "buffer_header" (by decide), hbool, hsymbols]
  rw [resolve_eq, resolve_eq, hname]
  simp only [hoptions]

end

/-- The options of a run are exactly the ones that are chosen, if the chosen name is a C
identifier. A name that is none is refused, and so no name is refused that another one
overrides. A name option that has lost its value is a fault of its own, and there is no other
fault. What else the configuration holds makes no difference. -/
theorem options_merged (a : Arguments) (config : Toml.Table) :
    (∀ options, RunOptions.resolve a config = .ok options ↔
      Merged a config options ∧ isCIdentifier options.generator.name = true) ∧
    (∀ name, RunOptions.resolve a config = .error (.invalidName name) ↔
      NameChosen a config (.text name) ∧ isCIdentifier name = false) ∧
    (RunOptions.resolve a config = .error .missingName ↔ a.name = some .empty) ∧
    (∀ e, RunOptions.resolve a config ≠ .error (.unusable e)) ∧
    (∀ name, a.name = some (.text name) → isCIdentifier name = true →
      ∃ options, RunOptions.resolve a config = .ok options ∧ options.generator.name = name) ∧
    ∀ other, SameConfigured config other →
      RunOptions.resolve a other = RunOptions.resolve a config := by
  refine ⟨fun _ => resolve_eq_ok_iff_merged, ?_, resolve_eq_missingName_iff,
    fun _ => resolve_ne_unusable, ?_, fun _ => resolve_congr⟩
  · intro name
    rw [resolve_eq_invalidName_iff, nameChosen_iff, isCIdentifier_eq_hasNameForm,
      @eq_comm _ _ (chosenName a config)]
  · intro name hgiven hname
    refine ⟨optionsNamed a config name, resolve_eq_ok_iff.mpr ⟨name, ?_, ?_, rfl⟩, rfl⟩
    · rw [chosenName, hgiven]
      rfl
    · rw [← isCIdentifier_eq_hasNameForm, hname]

/-- A command line that names the scanner. -/
def namedArguments : Arguments :=
  { input := "lang.json", name := some (.text "Calc") }

/-- Its section for the scanner has a name that cannot be used. -/
def badlyNamed : Toml.Table :=
  [("scanner", .table [("name", .string "my lang")])]

/-- The same, with a header of another type and a section that is no table. -/
def badlyNamedCluttered : Toml.Table :=
  [("output", .string "symbols"),
   ("scanner", .table [("parser_header", .bool true), ("name", .string "my lang")])]

theorem sameConfigured_badlyNamed : SameConfigured badlyNamed badlyNamedCluttered where
  strings := by
    simp only [List.forall_mem_cons, ← configString?_eq_some_iff]
    exact ⟨fun _ => Iff.rfl, fun _ => Iff.rfl, fun _ => Iff.rfl, by simp⟩
  charErrors := by
    simp only [← configBool?_eq_some_iff]
    exact fun _ => Iff.rfl
  symbols := by
    simp only [← configString?_eq_some_iff]
    exact fun _ => Iff.rfl

theorem options_merged_overridden :
    namedArguments.name = some (.text "Calc") ∧ isCIdentifier "Calc" = true ∧
      SameConfigured badlyNamed badlyNamedCluttered ∧
      (∃ options, RunOptions.resolve namedArguments badlyNamed = .ok options ∧
        options.generator.name = "Calc") ∧
      RunOptions.resolve namedArguments badlyNamedCluttered =
        RunOptions.resolve namedArguments badlyNamed := by
  obtain ⟨_, _, _, _, hoverridden, hother⟩ := options_merged namedArguments badlyNamed
  exact ⟨rfl, by decide, sameConfigured_badlyNamed, hoverridden "Calc" rfl (by decide),
    hother _ sameConfigured_badlyNamed⟩

/-- What comes of `--name=--`. -/
def namelessArguments : Arguments :=
  { input := "lang.json", name := some .empty }

/-- A name that has lost its value is not refused as a name that is no C identifier, although
no C identifier is chosen. -/
theorem lost_name_not_refused :
    Arguments.parse ["lang.json", "--name=--"] = .ok (.run namelessArguments) ∧
      ¬((∃ name, RunOptions.resolve namelessArguments [] = .error (.invalidName name)) ↔
        ¬∃ name, NameChosen namelessArguments [] (.text name) ∧ isCIdentifier name = true) := by
  have hnone : ¬∃ name, NameChosen namelessArguments [] (.text name) ∧
      isCIdentifier name = true := by
    rintro ⟨name, hname, _⟩
    cases nameChosen_iff.mp hname
  refine ⟨by decide +kernel, fun h => ?_⟩
  obtain ⟨name, hrefused⟩ := h.mpr hnone
  cases (resolve_eq_invalidName_iff.mp hrefused).1

end FlexSynth
