import FlexSynth.CommandLine.Arguments
import FlexSynth.Files.Tree
import FlexSynth.Scanner.Synthesis
import FlexSynth.Toml.Decode

/-!
# Options of a run

An option comes from the command line, else from the configuration file, else it
has a default. The configuration file is the one that the command line names, or
`scangen.toml` beside the grammar; a file that does not exist configures nothing.
Values of another type than the option's are passed over.
-/

namespace FlexSynth

/-! ## Configuration -/

inductive ConfigError where
  | unreadable (e : FileError)
  | undecodable (e : Text.Utf8Error)
  | malformed (e : Toml.SyntaxError)
  | longInteger (e : Text.LongInteger)
  deriving DecidableEq, Repr

namespace Arguments

def inputPath (a : Arguments) : Path :=
  .ofString a.input

def configPath (a : Arguments) : Path :=
  match a.config.bind OptionValue.nonEmpty? with
  | some config => .ofString config
  | none => a.inputPath.parent.child "scangen.toml"

end Arguments

def configOf (octets : List UInt8) : Except ConfigError Toml.Table :=
  match Text.decode octets with
  | .error e => .error (.undecodable e)
  | .ok source =>
    match Toml.decode source with
    | .ok config => .ok config
    | .error (.malformed e) => .error (.malformed e)
    | .error (.longInteger e) => .error (.longInteger e)

/-- The configuration of a run. It is an error to ask for a name that is too long,
but not for one that leads to no file. -/
def loadConfig (a : Arguments) (files : FileTree) : Except ConfigError Toml.Table :=
  match files.find a.configPath with
  | .ok (.file octets _) => configOf octets
  | .error .nameTooLong => .error (.unreadable ⟨.nameTooLong, a.configPath⟩)
  | _ => .ok []

/-! ## Options -/

structure RunOptions where
  input : Path
  output : Option Path
  symbols : Option Path
  generator : GeneratorOptions
  watch : Bool
  debug : Bool
  verbose : Bool
  deriving DecidableEq, Repr

inductive OptionsFault where
  | invalidName (name : String)
  /-- The name was given with no value. -/
  | missingName
  /-- The generator refuses the name. -/
  | unusable (e : UnusableName)
  deriving DecidableEq, Repr

def OptionsFault.message : OptionsFault → String
  | .invalidName name => s!"invalid scanner name (expected a C identifier): {name}"
  | .missingName => "expected string or bytes-like object, got 'list'"
  | .unusable e => e.message

/-- The form of a scanner name: a letter or an underscore, and then letters, digits
and underscores. -/
def hasNameForm : List Char → Bool
  | [] => false
  | c :: rest => (c.isAlpha || c == '_') && rest.all isWordChar

/-- A scanner name that the user chose. -/
def parseName (name : String) : Except OptionsFault String :=
  if hasNameForm name.toList then .ok name else .error (.invalidName name)

/-- The string that a section of a configuration gives to a key. -/
def configString? (config : Toml.Table) (part key : String) : Option String := do
  let fields ← config.table? part
  fields.string? key

/-- The truth value that a section of a configuration gives to a key. -/
def configBool? (config : Toml.Table) (part key : String) : Option Bool := do
  let fields ← config.table? part
  fields.bool? key

/-- The name of the scanner before it is checked. -/
def chosenName (a : Arguments) (config : Toml.Table) : OptionValue :=
  a.name.getD
    (.text ((configString? config "scanner" "name").getD (defaultName a.inputPath)))

/-- The name of the scanner, if it has the form of one. -/
def nameOf : OptionValue → Except OptionsFault String
  | .text name => parseName name
  | .empty => .error .missingName

/-- The header that a value names. -/
def headerOf : OptionValue → Header
  | .text name => .file name
  | .empty => .unnamed

/-- A header of the scanner; `key` is its name in the configuration. -/
def chosenHeader (argument : Option OptionValue) (config : Toml.Table) (key standard : String) :
    Header :=
  headerOf (argument.getD (.text ((configString? config "scanner" key).getD standard)))

def chosenSymbols (a : Arguments) (config : Toml.Table) : Option String :=
  a.symbols.bind OptionValue.nonEmpty? <|> configString? config "output" "symbols"

/-- Whether malformed character literals get rules. -/
def chosenCharErrors (a : Arguments) (config : Toml.Table) : Bool :=
  if a.noCharErrors then false
  else (configBool? config "scanner" "char_literal_errors").getD true

/-- The options for the generator before they are checked. -/
def chosenGenerator (a : Arguments) (config : Toml.Table) (name : String) :
    GeneratorOptions where
  name := name
  parserHeader := chosenHeader a.parserHeader config "parser_header" "Parser.h"
  bufferHeader := chosenHeader a.bufferHeader config "buffer_header" "Buffer.h"
  charLiteralErrors := chosenCharErrors a config

def RunOptions.resolve (a : Arguments) (config : Toml.Table) :
    Except OptionsFault RunOptions := do
  let name ← nameOf (chosenName a config)
  let generator ← (chosenGenerator a config name).checked.mapError .unusable
  return { input := a.inputPath
           output := (a.output.bind OptionValue.nonEmpty?).map .ofString
           symbols := (chosenSymbols a config).map .ofString
           generator, watch := a.watch, debug := a.debug, verbose := a.verbose }

end FlexSynth
