import FlexSynth.Text.DecimalDigit
import FlexSynth.Text.Display
import FlexSynth.Text.Join

/-!
# Command-line arguments

`Arguments.parse` reads the words after the program's name. A long option may be
cut to any beginning that no other option shares and may carry its value after an
equals sign; short options without a value may share one word, of which the rest
may be the value of the last. After the word `--` every word is an operand, and
so are a lone hyphen, a negative number, and an unknown word with a blank in it.
Of an option given twice the last value counts. A value in the same word that
reads `--` is dropped, and the option is given with no value.

All words are told apart first, so an ambiguous option is reported before
anything else. Then the words act in order: asking for help ends the reading, and
so does an option that lacks its value or has one that it does not take. A missing
operand is reported before words that nobody asked for.
-/

namespace FlexSynth

/-! ## Options -/

inductive CliOption where
  | help
  | output
  | name
  | config
  | parserHeader
  | bufferHeader
  | noCharErrors
  | symbols
  | watch
  | debug
  | verbose
  deriving DecidableEq, Repr

namespace CliOption

def all : List CliOption :=
  [help, output, name, config, parserHeader, bufferHeader, noCharErrors, symbols, watch, debug,
   verbose]

def spellings : CliOption → List String
  | help => ["-h", "--help"]
  | output => ["-o", "--output"]
  | name => ["-n", "--name"]
  | config => ["--config"]
  | parserHeader => ["--parser-header"]
  | bufferHeader => ["--buffer-header"]
  | noCharErrors => ["--no-char-errors"]
  | symbols => ["--symbols"]
  | watch => ["--watch"]
  | debug => ["--debug"]
  | verbose => ["-v", "--verbose"]

def takesValue : CliOption → Bool
  | output | name | config | parserHeader | bufferHeader | symbols => true
  | help | noCharErrors | watch | debug | verbose => false

/-- An option as messages call it. -/
def label (o : CliOption) : String :=
  Text.joinWith "/" o.spellings

def table : List (String × CliOption) :=
  all.flatMap fun o => o.spellings.map (·, o)

def ofSpelling? (word : String) : Option CliOption :=
  table.lookup word

end CliOption

/-! ## Misuse -/

/-- A command line that the program does not understand. -/
inductive UsageError where
  | ambiguous (word : String) (candidates : List String)
  | missingValue (o : CliOption)
  | unwantedValue (o : CliOption) (value : String)
  | missingInput
  | unrecognized (words : List String)
  deriving DecidableEq, Repr

def UsageError.message : UsageError → String
  | .ambiguous word candidates =>
    let list := Text.joinWith ", " candidates
    s!"ambiguous option: {word} could match {list}"
  | .missingValue o => s!"argument {o.label}: expected one argument"
  | .unwantedValue o value =>
    s!"argument {o.label}: ignored explicit argument {Text.display value}"
  | .missingInput => "the following arguments are required: input"
  | .unrecognized words =>
    let list := Text.joinWith " " words
    s!"unrecognized arguments: {list}"

/-! ## Words -/

inductive Word where
  | operand
  /-- The word after which all words are operands. -/
  | separator
  /-- An option, whether it was written with one hyphen, and the value in the word. -/
  | option (o : CliOption) (short : Bool) (value : Option String)
  | unknown
  deriving DecidableEq, Repr

def splitEquals (word : List Char) : List Char × Option (List Char) :=
  match word.span (· ≠ '=') with
  | (before, _ :: after) => (before, some after)
  | (before, []) => (before, none)

/-- Whether a word is a negative number: a hyphen and digits, with a point before
the last digits if there is one. A newline at the end does not count. -/
def isNegativeNumber (word : List Char) : Bool :=
  match word with
  | '-' :: rest =>
    let number := if rest.getLast? = some '\n' then rest.dropLast else rest
    match number.span Text.isDecimalDigit with
    | (digits, []) => !digits.isEmpty
    | (_, '.' :: after) => !after.isEmpty && after.all Text.isDecimalDigit
    | _ => false
  | _ => false

def otherWord (word : List Char) : Word :=
  if isNegativeNumber word || word.contains ' ' then .operand else .unknown

/-- The options that a word with two hyphens may be the beginning of. -/
def longCandidates (beginning : List Char) : List (String × CliOption) :=
  CliOption.table.filter fun (spelling, _) => beginning.isPrefixOf spelling.toList

/-- Tells what a word with two hyphens is that spells no option in full. -/
def longWord (word : String) : Except UsageError Word :=
  let (beginning, value) := splitEquals word.toList
  match longCandidates beginning with
  | [] => .ok (otherWord word.toList)
  | [(_, o)] => .ok (.option o false (value.map String.ofList))
  | several => .error (.ambiguous word (several.map (·.1)))

/-- Tells what a word is, before a separator. -/
def classify (word : String) : Except UsageError Word :=
  match word.toList with
  | '-' :: second :: rest =>
    let (before, value) := splitEquals word.toList
    match word, CliOption.ofSpelling? word, CliOption.ofSpelling? (String.ofList before), value with
    | "--", _, _, _ => .ok .separator
    | _, some o, _, _ => .ok (.option o (second ≠ '-') none)
    | _, none, some o, some value => .ok (.option o (second ≠ '-') (some (String.ofList value)))
    | _, _, _, _ =>
      if second = '-' then longWord word
      else match CliOption.ofSpelling? (String.ofList ['-', second]) with
        | some o => .ok (.option o true (some (String.ofList rest)))
        | none => .ok (otherWord word.toList)
  | _ => .ok .operand

def classifyAll : List String → Except UsageError (List (String × Word))
  | [] => .ok []
  | word :: rest => do
    match ← classify word with
    | .separator => return (word, .separator) :: rest.map (·, .operand)
    | kind => do
      let more ← classifyAll rest
      return (word, kind) :: more

/-! ## Reading -/

/-- What an option that takes a value was given. -/
inductive OptionValue where
  | text (value : String)
  /-- The value was dropped. -/
  | empty
  deriving DecidableEq, Repr

def OptionValue.ofText (text : String) : OptionValue :=
  if text = "--" then .empty else .text text

/-- The text of a value; an empty text counts as none. -/
def OptionValue.nonEmpty? : OptionValue → Option String
  | .text value => if value.isEmpty then none else some value
  | .empty => none

structure Arguments where
  input : String
  output : Option OptionValue := none
  name : Option OptionValue := none
  config : Option OptionValue := none
  parserHeader : Option OptionValue := none
  bufferHeader : Option OptionValue := none
  noCharErrors : Bool := false
  symbols : Option OptionValue := none
  watch : Bool := false
  debug : Bool := false
  verbose : Bool := false
  deriving DecidableEq, Repr

/-- A command line in the middle of reading: the operand when it has been read, the
options so far with an empty operand, whether the last word was the operand, and
the words that nobody asked for. -/
structure ParseState where
  input : Option String := none
  options : Arguments := { input := "" }
  afterInput : Bool := false
  extras : List String := []
  deriving DecidableEq, Repr

/-- One option with its value, when it takes one. -/
def Arguments.set (a : Arguments) (o : CliOption) (value : Option String) : Arguments :=
  let value := value.map OptionValue.ofText
  match o with
  | .help => a
  | .output => { a with output := value }
  | .name => { a with name := value }
  | .config => { a with config := value }
  | .parserHeader => { a with parserHeader := value }
  | .bufferHeader => { a with bufferHeader := value }
  | .noCharErrors => { a with noCharErrors := true }
  | .symbols => { a with symbols := value }
  | .watch => { a with watch := true }
  | .debug => { a with debug := true }
  | .verbose => { a with verbose := true }

/-- The options in a word: those without a value, and the last one with the value in
the word, if there is one. -/
structure Cluster where
  flags : List CliOption
  last : CliOption
  value : Option String
  deriving DecidableEq, Repr

/-- Splits the rest of a word after a short option without a value. -/
def clusterOf (o : CliOption) : List Char → Except UsageError Cluster
  | [] => .ok ⟨[], o, none⟩
  | c :: rest =>
    if o.takesValue then .ok ⟨[], o, some (String.ofList (c :: rest))⟩
    else match CliOption.ofSpelling? (String.ofList ['-', c]) with
      | none => .error (.unwantedValue o (String.ofList (c :: rest)))
      | some next => do
        let cluster ← clusterOf next rest
        return { cluster with flags := o :: cluster.flags }

/-- The options in a word that is an option. -/
def Cluster.of (o : CliOption) (short : Bool) (value : Option String) :
    Except UsageError Cluster :=
  match value with
  | none => .ok ⟨[], o, none⟩
  | some value =>
    if o.takesValue then .ok ⟨[], o, some value⟩
    else if short ∧ value ≠ "" then clusterOf o value.toList
    else .error (.unwantedValue o value)

/-- What comes of a command line: a request for help, or what it asks for. -/
inductive Invocation where
  | help
  | run (arguments : Arguments)
  deriving DecidableEq, Repr

def ParseState.finish (s : ParseState) : Except UsageError Invocation :=
  match s.input, s.extras with
  | none, _ => .error .missingInput
  | some input, [] => .ok (.run { s.options with input })
  | some _, extras => .error (.unrecognized extras)

/-- Lets the words act in order. -/
def readWords (s : ParseState) : List (String × Word) → Except UsageError Invocation
  | [] => s.finish
  | (word, .operand) :: rest =>
    match s.input with
    | none => readWords { s with input := some word, afterInput := true } rest
    | some _ => readWords { s with extras := s.extras ++ [word], afterInput := false } rest
  | (word, .separator) :: rest =>
    if s.input.isNone ∨ s.afterInput then readWords { s with afterInput := false } rest
    else readWords { s with extras := s.extras ++ [word] } rest
  | (word, .unknown) :: rest =>
    readWords { s with extras := s.extras ++ [word], afterInput := false } rest
  | (_, .option o short value) :: rest =>
    match Cluster.of o short value with
    | .error e => .error e
    | .ok cluster =>
      let options := cluster.flags.foldl (fun a o => a.set o none) s.options
      let helpAsked := cluster.flags.contains .help || cluster.last == .help
      if cluster.last.takesValue ∧ cluster.value = none then
        match rest with
        | (value, .operand) :: rest =>
          if helpAsked then .ok .help
          else readWords { s with options := options.set cluster.last (some value),
                                  afterInput := false } rest
        | _ => .error (.missingValue cluster.last)
      else if helpAsked then .ok .help
      else readWords { s with options := options.set cluster.last cluster.value,
                              afterInput := false } rest

def Arguments.parse (words : List String) : Except UsageError Invocation := do
  let kinds ← classifyAll words
  readWords {} kinds

end FlexSynth
