import FlexSynth.Scanner.Rule

/-!
# String and character literals

A string literal collects its characters in a buffer, which the rules make at
the opening quote and give away with the token at the closing one. The escapes
for newline and tab stand for those characters, and every other escaped
character for itself. At the end of the input the buffer is dropped and an error
returned.

A character literal returns its token as soon as the character is read, and
consumes the closing quote afterwards. With an error token, a malformed or
unfinished literal returns it and ends.
-/

namespace FlexSynth

def stringLiteralRules (token error : String) : List Rule :=
  [.ofState StartState.initial "\"\\\"\"" [.createBuffer, .begin StartState.string],
   .ofState StartState.string "\\\\" [.begin StartState.stringEscape],
   .ofState StartState.string "\\\""
     [.assign .string .buffer, .begin StartState.initial, .emit token],
   .ofState StartState.string ".|\\n" [.appendChar none],
   .ofState StartState.stringEscape "n"
     [.appendChar (some "\n"), .begin StartState.string],
   .ofState StartState.stringEscape "\\\""
     [.appendChar (some "\""), .begin StartState.string],
   .ofState StartState.stringEscape "\\\\"
     [.appendChar (some "\\"), .begin StartState.string],
   .ofState StartState.stringEscape "t"
     [.appendChar (some "\t"), .begin StartState.string],
   .ofState StartState.stringEscape ".|\\n" [.appendText, .begin StartState.string],
   { states := [StartState.string, StartState.stringEscape], pattern := Rule.endOfInput,
     actions := [.freeBuffer, .begin StartState.initial, .emit error] }]

/-- The rules of well-formed character literals. -/
def charLiteralRules (token : String) : List Rule :=
  [.ofState StartState.initial "\"'\"" [.begin StartState.char],
   .ofState StartState.char "\\\\" [.begin StartState.charEscape],
   .ofState StartState.char "[^']"
     [.begin StartState.charEnd, .assign .char .firstChar, .emit token],
   .ofState StartState.charEscape "n"
     [.begin StartState.charEnd, .assign .char (.constant (some "\n")), .emit token],
   .ofState StartState.charEscape "t"
     [.begin StartState.charEnd, .assign .char (.constant (some "\t")), .emit token],
   .ofState StartState.charEscape ".|\\n"
     [.begin StartState.charEnd, .assign .char .firstChar, .emit token],
   .ofState StartState.charEnd "\"'\"" [.begin StartState.initial]]

/-- The rules of malformed and unfinished character literals. -/
def charErrorRules (error : String) : List Rule :=
  [.ofState StartState.char "\"'\"" [.begin StartState.initial, .emit error],
   .ofState StartState.charEnd ".|\\n" [.begin StartState.initial, .emit error],
   { states := [StartState.char, StartState.charEscape, StartState.charEnd],
     pattern := Rule.endOfInput,
     actions := [.begin StartState.initial, .emit error] }]

/-- The rules of character literals, with those of malformed ones when there is
an error token. -/
def charRules (token : String) (error : Option String) : List Rule :=
  charLiteralRules token ++ match error with
    | some e => charErrorRules e
    | none => []

/-! ## The literal buffer -/

/-- The C definitions of the literal buffer. The buffer is private to the scanner
and touched through these macros only. -/
def bufferPrelude (bufferHeader : String) : List String :=
  ["/* BEGIN extensible string buffer */",
   "",
   s!"#include \"{bufferHeader}\"",
   "",
   "/* The initial size of the buffer to lex string literals. */",
   "#define LITERAL_BUFFER_INITIAL_SIZE 1024",
   "",
   "/* The pointer to the literal buffer. */",
   "static Buffer literal_buffer = NULL;",
   "",
   "/* Initialize the literal buffer. */",
   "#define LITERAL_BUFFER_CREATE() literal_buffer = newBuffer(LITERAL_BUFFER_INITIAL_SIZE)",
   "",
   "/* Append characters at the end of the buffer. */",
   "#define LITERAL_BUFFER_APPEND(s) bufferAppendString(literal_buffer, s)",
   "",
   "/* Append a character at the end of the buffer. */",
   "#define LITERAL_BUFFER_APPEND_CHAR(c) bufferAppendChar(literal_buffer, c)",
   "",
   "/* Release the buffer, returning a pointer to its content. */",
   "#define LITERAL_BUFFER_HARVEST() releaseBuffer(literal_buffer)",
   "",
   "/* In exceptional cases, e.g. when reaching EOF, we have to free the buffer. */",
   "#define LITERAL_BUFFER_FREE() freeBuffer(literal_buffer)",
   "",
   "/* END extensible string buffer */",
   ""]

end FlexSynth
