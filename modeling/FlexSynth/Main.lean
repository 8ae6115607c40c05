import FlexSynth.Watch

/-!
# The program

The outer layer of the program. It looks at the files that a command line concerns,
leaves all decisions to `prepare`, `runOnce` and `poll`, prints what they print and
writes the files that they changed. A file counts as changed at a look when its
octets are others than at the look before.
-/

namespace FlexSynth.Program

/-! ## Concerned files -/

/-- The locations that following a path passes, from a location on. -/
def passed : Location → List String → List Location
  | here, [] => [here]
  | here, part :: rest =>
    here :: passed (if part = ".." then here.dropLast else here ++ [part]) rest

/-- The files that a command line concerns before its options are known. -/
def argumentPaths (words : List String) : List Path :=
  match Arguments.parse words with
  | .ok (.run a) => [a.inputPath, a.configPath]
  | _ => []

def optionPaths (options : RunOptions) : List Path :=
  options.input :: options.output.toList ++ options.symbols.toList

/-- The name of a location for the operating system. -/
def systemName (location : Location) : String :=
  "/" ++ Text.joinWith "/" location

/-! ## Looking and writing -/

/-- What stands at a location; a directory is what opens but cannot be read. -/
def observe (location : Location) : IO (Option FileNode) := do
  try
    let octets ← IO.FS.readBinFile (systemName location)
    return some (.file octets.toList 0)
  catch
    | .inappropriateType .. => return some (.directory 0)
    | _ => return none

/-- The tree with what was seen at a location. A file that has not changed keeps
its time. -/
def record (t : FileTree) (location : Location) (seen : Option FileNode) : FileTree :=
  match seen, t.nodes.lookup location with
  | none, _ => { t with nodes := t.nodes.filter (·.1 ≠ location) }
  | some (.directory _), some (.directory _) => t
  | some (.directory _), _ =>
    { t with nodes := FileTree.putNode location (.directory (t.clock + 1)) t.nodes
             clock := t.clock + 1 }
  | some (.file octets _), some (.file old time) =>
    if octets = old then t
    else { t with nodes := FileTree.putNode location (.file octets (max time t.clock + 1)) t.nodes
                  clock := max time t.clock + 1 }
  | some (.file octets _), _ =>
    { t with nodes := FileTree.putNode location (.file octets (t.clock + 1)) t.nodes
             clock := t.clock + 1 }

/-- The tree after a look at some paths. -/
def look (t : FileTree) (paths : List Path) : IO FileTree :=
  (paths.flatMap fun p => passed (t.startOf p) p.parts).foldlM (fun t location => do
    return record t location (← observe location)) t

/-- Writes the files that have changed. -/
def commit (before after : FileTree) : IO Unit :=
  (after.changedSince before).forM fun (location, octets) =>
    IO.FS.writeBinFile (systemName location) ⟨octets.toArray⟩

def printOutput (output : Output) : IO Unit := do
  IO.print output.stdout
  IO.eprint output.stderr

/-- The exit code of an ending; a failure is printed and has the code one. -/
def exitCode : Ending → IO UInt32
  | .exit code | .usage code => return code.toUInt32
  | .failed f => do
    IO.eprintln f.message
    return 1

/-! ## Running -/

/-- Looks again and again, until a failure ends the run. -/
partial def watchFiles (options : RunOptions) (seen : Nat) (tree : FileTree) : IO UInt32 := do
  let result := poll options seen tree
  printOutput result.output
  commit tree result.files
  match result.failure with
  | some f => exitCode (.failed f)
  | none =>
    IO.sleep 500
    watchFiles options result.seen (← look result.files (optionPaths options))

def start (options : RunOptions) (tree : FileTree) : IO UInt32 := do
  let tree ← look tree (optionPaths options)
  if options.watch then
    IO.eprintln (watchNotice options)
    watchFiles options 0 tree
  else
    let result := runOnce options tree
    printOutput result.output
    commit tree result.files
    exitCode result.ending

end FlexSynth.Program

open FlexSynth in
def main (words : List String) : IO UInt32 := do
  let directory ← IO.currentDir
  let tree : FileTree := { current := (Path.ofString directory.toString).parts }
  let tree ← Program.look tree (Program.argumentPaths words)
  match prepare words tree with
  | .ok options => Program.start options tree
  | .error refusal => do
    Program.printOutput refusal.output
    Program.exitCode refusal.ending
