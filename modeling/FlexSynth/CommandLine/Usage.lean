import FlexSynth.CommandLine.Arguments

/-!
# Usage

What the program prints about its own command line.
-/

namespace FlexSynth

def usageText : String :=
  Text.joinLines
    ["usage: scangen [-h] [-o OUTPUT] [-n NAME] [--config FILE]",
     "               [--parser-header FILE] [--buffer-header FILE]",
     "               [--no-char-errors] [--symbols FILE] [--watch] [--debug] [-v]",
     "               input",
     ""]

def helpText : String :=
  usageText ++ Text.joinLines
    ["",
     "Generate a flex scanner description from a lexical grammar",
     "",
     "positional arguments:",
     "  input                 Grammar file (.json)",
     "",
     "options:",
     "  -h, --help            show this help message and exit",
     "  -o OUTPUT, --output OUTPUT",
     "                        Output .l file (default: stdout)",
     "  -n NAME, --name NAME  Prefix for the generated yylval/yylloc/init_lexer",
     "                        names (default: from the grammar file name)",
     "  --config FILE         Config file (default: auto-discover scangen.toml)",
     "  --parser-header FILE  Parser header to include",
     "  --buffer-header FILE  Literal buffer header to include",
     "  --no-char-errors      Do not emit error rules for malformed character",
     "                        literals",
     "  --symbols FILE        Write the symbol environment as JSON (for the parser",
     "                        generator)",
     "  --watch               Watch for changes and regenerate",
     "  --debug               Dump symbols and rules to stderr",
     "  -v, --verbose         Log generation steps",
     ""]

/-- What is printed about a misused command line. -/
def UsageError.text (e : UsageError) : String :=
  usageText ++ "scangen: error: " ++ e.message ++ "\n"

end FlexSynth
