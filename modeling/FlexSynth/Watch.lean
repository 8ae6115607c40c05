import FlexSynth.Files.Edit
import FlexSynth.Run

/-!
# Watching

A watching run looks at the grammar file again and again and generates anew when
the time of its last change is another than at the last generation. A rejected
grammar is reported and the run goes on; a file that cannot be read as text, an
integer in it that is not converted, or an output that cannot be written, ends it.
Between two looks others may change the files, also the configuration, which is read
only once.

`poll` is one look. `watchFrom` is a run of looks with edits between them, ended
by an interrupt when no edit is left. `runProgram` is the whole program: it
watches if the command line says so.
-/

namespace FlexSynth

/-! ## One look -/

/-- What a look leaves behind: the time of the last generation, the files, what
was printed, and the failure that ends the run. -/
structure Look where
  seen : Nat
  files : FileTree
  output : Output
  failure : Option Failure
  deriving DecidableEq, Repr

/-- Generates and writes, and reports a grammar that nothing can be made of. -/
def regenerate (options : RunOptions) (time : Nat) (files : FileTree) : Look :=
  let (log, made) := produce options files
  match made with
  | .error (.rejected e) => ⟨time, files, ⟨"", log ++ e.report.format ++ "\n"⟩, none⟩
  | .error (.untranslatable e) => ⟨time, files, ⟨"", log ++ e.format ++ "\n"⟩, none⟩
  | .error (.unreadable e) => ⟨time, files, ⟨"", log⟩, some (.file e)⟩
  | .error (.undecodable e) => ⟨time, files, ⟨"", log⟩, some (.undecodable e)⟩
  | .error (.longInteger e) => ⟨time, files, ⟨"", log⟩, some (.longInteger e)⟩
  | .error (.unrenderable e) => ⟨time, files, ⟨"", log⟩, some (.unrenderable e)⟩
  | .ok product =>
    let delivery := options.deliver product files
    match delivery.failure with
    | none =>
      ⟨time, delivery.files,
        ⟨delivery.stdout, log ++ s!"Generated {options.input.text}\n"⟩, none⟩
    | some f => ⟨time, delivery.files, ⟨delivery.stdout, log⟩, some f⟩

/-- Looks at the grammar file; `seen` is the time of the last generation. A file
that the operating system does not find is waited for. -/
def poll (options : RunOptions) (seen : Nat) (files : FileTree) : Look :=
  match files.modified options.input with
  | .error fault =>
    if fault.isOfSystem then ⟨seen, files, {}, none⟩
    else ⟨seen, files, {}, some (.file ⟨fault, options.input⟩)⟩
  | .ok time =>
    if time = seen then ⟨seen, files, {}, none⟩ else regenerate options time files

/-! ## Runs of looks -/

/-- A finished look: what was printed since the last one, and the files before and
after it. -/
structure Poll where
  output : Output
  before : FileTree
  after : FileTree
  deriving DecidableEq, Repr

/-- A finished run with its looks: what was printed after the last one, and how
the run ended. -/
structure Transcript where
  polls : List Poll
  rest : Output
  ending : Ending
  files : FileTree
  deriving DecidableEq, Repr

/-- The run that a look ends, or else goes on as `later` says; `printed` is what
came before the look. -/
def Look.continued (look : Look) (before : FileTree) (printed : Output) (later : Transcript) :
    Transcript :=
  match look.failure with
  | some f => ⟨[], printed ++ look.output, .failed f, look.files⟩
  | none => { later with polls := ⟨printed ++ look.output, before, look.files⟩ :: later.polls }

/-- Looks, with edits in between; `printed` is what came before the first look. -/
def watchFrom (options : RunOptions) (seen : Nat) (shared : SharedTree) (printed : Output) :
    List Edit → Transcript
  | [] =>
    let look := poll options seen shared.tree
    look.continued shared.tree printed ⟨[], {}, .exit 0, look.files⟩
  | edit :: more =>
    let look := poll options seen shared.tree
    look.continued shared.tree printed
      (watchFrom options look.seen ({ shared with tree := look.files }.edit edit) {} more)

/-- What a watching run prints first. -/
def watchNotice (options : RunOptions) : String :=
  s!"Watching {options.input.text} for changes..."

def watchRun (options : RunOptions) (shared : SharedTree) (edits : List Edit) : Transcript :=
  watchFrom options 0 shared ⟨"", watchNotice options ++ "\n"⟩ edits

/-! ## The program -/

/-- Runs a command line; the edits come between looks if it watches. -/
def runProgram (words : List String) (shared : SharedTree) (edits : List Edit) : Transcript :=
  match prepare words shared.tree with
  | .error refusal => ⟨[], refusal.output, refusal.ending, shared.tree⟩
  | .ok options =>
    if options.watch then watchRun options shared edits
    else
      let result := runOnce options shared.tree
      ⟨[], result.output, result.ending, result.files⟩

end FlexSynth
