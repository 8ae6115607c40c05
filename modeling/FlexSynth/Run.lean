import FlexSynth.CommandLine.Options
import FlexSynth.CommandLine.Usage
import FlexSynth.Grammar.Schema
import FlexSynth.Json.Surrogates

/-!
# Runs

A run reads a grammar file and writes the scanner description to a file or to
the standard output, and the symbols to a file if one is asked for.

`produce` makes both texts and changes nothing; `RunOptions.deliver` writes them,
the description first. `runOnce` does one after the other and ends with an exit
code, or with a failure that no exit code stands for.

A description into which the grammar has brought a surrogate that stands alone cannot
be encoded. Its file has been opened by then, and stays empty.
-/

namespace FlexSynth

/-! ## Endings -/

/-- A failure that ends the program from inside. -/
inductive Failure where
  | undecodable (e : Text.Utf8Error)
  | longInteger (e : Text.LongInteger)
  | file (e : FileError)
  | options (e : OptionsFault)
  | unrenderable (e : RenderFault)
  | unencodable (e : Text.EncodeError)
  deriving DecidableEq, Repr

def Failure.message : Failure → String
  | .undecodable e => e.message
  | .longInteger e => e.message
  | .file e => e.message
  | .options e => e.message
  | .unrenderable e => e.message
  | .unencodable e => e.message

inductive Ending where
  | exit (code : Nat)
  /-- With an exit code, while it reads its command line. -/
  | usage (code : Nat)
  | failed (f : Failure)
  deriving DecidableEq, Repr

structure Output where
  stdout : String := ""
  stderr : String := ""
  deriving DecidableEq, Repr

def Output.append (a b : Output) : Output :=
  ⟨a.stdout ++ b.stdout, a.stderr ++ b.stderr⟩

instance : Append Output := ⟨Output.append⟩

structure RunResult where
  ending : Ending
  output : Output
  files : FileTree
  deriving DecidableEq, Repr

/-! ## Generation -/

inductive GenerationError where
  | unreadable (e : FileError)
  | undecodable (e : Text.Utf8Error)
  | longInteger (e : Text.LongInteger)
  | rejected (e : GrammarError)
  | untranslatable (e : PatternError)
  | unrenderable (e : RenderFault)
  deriving DecidableEq, Repr

def GenerationError.ofLoad : LoadFault → GenerationError
  | .rejected e => .rejected e
  | .longInteger e => .longInteger e

/-- What is made of a grammar file, and what keeps the text from being encoded. -/
structure Product where
  text : String
  symbols : SymbolTable
  unencodable : Option Text.EncodeError
  deriving DecidableEq, Repr

def logText (verbose : Bool) (lines : List String) : String :=
  if verbose then String.join (lines.map fun line => s!"scangen.flex: {line}\n") else ""

/-- The listings of a scanner, if they are asked for. -/
def dumpText (debug : Bool) (s : Synthesis) : String :=
  if debug then s.symbols.dump ++ s.description.dump else ""

/-- The text of a grammar file, in which every line ends in a newline. -/
def readSource (files : FileTree) (p : Path) : Except GenerationError String := do
  let octets ← (files.read p).mapError .unreadable
  let source ← (Text.decode octets).mapError .undecodable
  return String.ofList (Text.unifyNewlines source.toList)

/-- A grammar, and the surrogates that stand alone in its source. -/
structure GrammarFile where
  grammar : LexicalGrammar
  surrogates : List Nat
  deriving DecidableEq, Repr

def readGrammar (files : FileTree) (p : Path) : Except GenerationError GrammarFile := do
  let source ← readSource files p
  let grammar ← (LexicalGrammar.parse source p.name).mapError .ofLoad
  return ⟨grammar, Json.loneSurrogates source⟩

/-- What keeps a text from being encoded, when these surrogates have stand-ins in it. Most
sources have no such surrogate, and the text is then not looked through. -/
def encodeError? (surrogates : List Nat) (text : String) : Option Text.EncodeError :=
  if surrogates.isEmpty then none else Text.encodeError? (Json.codePoints surrogates text)

/-- What is generated from a grammar, and what is logged on the way. -/
def produceFrom (options : RunOptions) (file : GrammarFile) :
    String × Except GenerationError Product :=
  let start := logText options.verbose (startProgress file.grammar)
  match synthesize file.grammar options.generator flexTranslator with
  | .error e => (start, .error (.untranslatable e))
  | .ok s =>
    (start ++ logText options.verbose [s.groups.progress] ++ dumpText options.debug s,
      match s.description.text with
      | .ok text => .ok ⟨text, s.symbols, encodeError? file.surrogates text⟩
      | .error e => .error (.unrenderable e))

/-- What a run generates, and what is logged on the way. -/
def produce (options : RunOptions) (files : FileTree) :
    String × Except GenerationError Product :=
  match readGrammar files options.input with
  | .ok file => produceFrom options file
  | .error e => ("", .error e)

/-! ## Delivery -/

/-- The files and the standard output after writing, which may have stopped. -/
structure Delivery where
  files : FileTree
  stdout : String
  failure : Option Failure
  deriving DecidableEq, Repr

/-- What gets written of the text: nothing, if it cannot be encoded. -/
def Product.written (product : Product) : String :=
  if product.unencodable.isSome then "" else product.text

/-- Writes the symbols, if a file for them is asked for and the text could be encoded. -/
def RunOptions.deliverSymbols (options : RunOptions) (product : Product) (files : FileTree)
    (stdout : String) : Delivery :=
  match product.unencodable, options.symbols with
  | some e, _ => ⟨files, stdout, some (.unencodable e)⟩
  | none, none => ⟨files, stdout, none⟩
  | none, some p =>
    match files.write p product.symbols.exported with
    | .ok files => ⟨files, stdout, none⟩
    | .error e => ⟨files, stdout, some (.file e)⟩

/-- Writes the scanner description and then the symbols. -/
def RunOptions.deliver (options : RunOptions) (product : Product) (files : FileTree) :
    Delivery :=
  match options.output with
  | none => options.deliverSymbols product files product.written
  | some p =>
    match files.write p product.written with
    | .ok files => options.deliverSymbols product files ""
    | .error e => ⟨files, "", some (.file e)⟩

/-! ## Single runs -/

/-- Generates and writes once. -/
def runOnce (options : RunOptions) (files : FileTree) : RunResult :=
  let (log, made) := produce options files
  match made with
  | .error (.unreadable e) =>
    if e.fault.isOfSystem then ⟨.exit 1, ⟨"", log ++ s!"error: {e.message}\n"⟩, files⟩
    else ⟨.failed (.file e), ⟨"", log⟩, files⟩
  | .error (.rejected e) => ⟨.exit 1, ⟨"", log ++ e.report.format ++ "\n"⟩, files⟩
  | .error (.untranslatable e) => ⟨.exit 2, ⟨"", log ++ e.format ++ "\n"⟩, files⟩
  | .error (.undecodable e) => ⟨.failed (.undecodable e), ⟨"", log⟩, files⟩
  | .error (.longInteger e) => ⟨.failed (.longInteger e), ⟨"", log⟩, files⟩
  | .error (.unrenderable e) => ⟨.failed (.unrenderable e), ⟨"", log⟩, files⟩
  | .ok product =>
    let delivery := options.deliver product files
    let ending := match delivery.failure with
      | none => Ending.exit 0
      | some f => .failed f
    ⟨ending, ⟨delivery.stdout, log⟩, delivery.files⟩

/-! ## The command line -/

/-- A run that ends before it starts. -/
structure Refusal where
  ending : Ending
  output : Output
  deriving DecidableEq, Repr

/-- The options of a command line, with the configuration that it finds. -/
def prepareOptions (a : Arguments) (files : FileTree) : Except Refusal RunOptions :=
  match loadConfig a files with
  | .error (.unreadable e) => .error ⟨.failed (.file e), {}⟩
  | .error (.undecodable e) => .error ⟨.failed (.undecodable e), {}⟩
  | .error (.longInteger e) => .error ⟨.failed (.longInteger e), {}⟩
  | .error (.malformed e) => .error ⟨.exit 2, ⟨"", s!"error: {e.message}\n"⟩⟩
  | .ok config =>
    match RunOptions.resolve a config with
    | .ok options => .ok options
    | .error (.invalidName name) =>
      let fault := OptionsFault.invalidName name
      .error ⟨.exit 2, ⟨"", s!"error: {fault.message}\n"⟩⟩
    | .error e => .error ⟨.failed (.options e), {}⟩

def prepare (words : List String) (files : FileTree) : Except Refusal RunOptions :=
  match Arguments.parse words with
  | .error e => .error ⟨.usage 2, ⟨"", e.text⟩⟩
  | .ok .help => .error ⟨.usage 0, ⟨helpText, ""⟩⟩
  | .ok (.run arguments) => prepareOptions arguments files

end FlexSynth
