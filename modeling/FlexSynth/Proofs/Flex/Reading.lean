import FlexSynth.Proofs.Flex.Pattern
import FlexSynth.Regex.Pattern

/-!
# Reading pattern texts

`read` gives the pattern that a pattern text means to flex, or nothing when the text
is no pattern of the forms below. It goes over the text from left to right:

* `glyph?` takes one character. After a backslash stand a letter for a control
  character, up to three octal digits, or a character that is meant as it is.
* `lexeme?` takes what belongs together: a text in double quotes, a bracket
  expression, a name in braces, or else one character.
* `token?` tells what a lexeme is for. A name in braces is a macro or one of the
  operators `{-}` and `{+}`.
* `Reading.step` puts the tokens together on a stack of open parentheses. A postfix
  operator takes the last factor alone, a sequence binds tighter than `|`, and
  `{-}` and `{+}` join bracket expressions from left to right.

A bracket expression is read in one of two dialects. In that of flex, a name between
`[:` and `:]` is a named class, and the bracket of `:]` closes nothing. The plain
dialect has no such names: their characters are characters like others. Patterns are
read in the plain dialect.

A raw newline ends a rule and an unquoted blank its pattern, so neither is part of a
pattern text. Anchors, trailing contexts, start conditions, counted repetitions and
hexadecimal escapes are not read.
-/

namespace FlexSynth.Flex

/-! ## Characters -/

/-- A character of a pattern text. Only a plain one can be an operator. -/
inductive Glyph where
  | plain (c : Char)
  /-- Spelled with a backslash. -/
  | escaped (c : Char)
  deriving DecidableEq, Repr

def Glyph.char : Glyph → Char
  | .plain c | .escaped c => c

def isOctalDigit (c : Char) : Bool :=
  '0' ≤ c && c ≤ '7'

def octalValue (digits : List Char) : Nat :=
  digits.foldl (fun n d => 8 * n + (d.toNat - 0x30)) 0

/-- What a backslash and a character stand for, digits aside. -/
def escapedLetter : Char → Char
  | 'n' => '\n'
  | 't' => '\t'
  | 'r' => '\r'
  | 'f' => '\x0c'
  | 'v' => '\x0b'
  | 'b' => '\x08'
  | 'a' => '\x07'
  | c => c

/-- What the start of a text stands for after a backslash, and how many characters
spell it. Octal digits are taken as long as there are any, three at most. -/
def escape? : List Char → Option (Char × Nat)
  | [] => none
  | c :: rest =>
    if isOctalDigit c then
      let digits := ((c :: rest).take 3).takeWhile isOctalDigit
      some (Char.ofNat (octalValue digits), digits.length)
    else if c = '\n' ∨ c = 'x' then none
    else some (escapedLetter c, 1)

/-- The character in front of a text, and how many characters spell it. -/
def glyph? : List Char → Option (Glyph × Nat)
  | [] => none
  | c :: rest =>
    if c = '\\' then (escape? rest).map fun (meant, length) => (.escaped meant, length + 1)
    else if c = '\n' then none
    else some (.plain c, 1)

/-! ## Quotes and braces -/

/-- The characters in front of a closing one, and how far it reaches. The first `skip`
characters belong to one that has been read already. -/
def enclosed? (close : Char) : (skip : Nat) → List Char → Option (List Char × Nat)
  | _, [] => none
  | skip + 1, _ :: rest => (enclosed? close skip rest).map fun (text, n) => (text, n + 1)
  | 0, c :: rest =>
    match glyph? (c :: rest) with
    | none => none
    | some (g, length) =>
      if g = .plain close then some ([], 1)
      else (enclosed? close (length - 1) rest).map fun (text, n) => (g.char :: text, n + 1)

/-! ## Bracket expressions -/

/-- How bracket expressions are read. -/
inductive Dialect where
  /-- Without named classes. -/
  | plain
  /-- With named classes, as in flex. -/
  | named
  deriving DecidableEq, Repr

/-- A part of the inside of a bracket expression. -/
inductive Part where
  | glyph (g : Glyph)
  | named (name : List Char)
  deriving DecidableEq, Repr

inductive Member where
  | single (c : Char)
  /-- The characters from the one to the other. -/
  | range (low high : Char)
  | named (name : List Char)
  deriving DecidableEq, Repr

/-- What the parts list. A plain hyphen between two characters makes a range. -/
def members : List Part → List Member
  | .glyph g :: .glyph (.plain '-') :: .glyph h :: rest => .range g.char h.char :: members rest
  | .glyph g :: rest => .single g.char :: members rest
  | .named name :: rest => .named name :: members rest
  | [] => []

structure Bracket where
  negated : Bool
  members : List Member
  deriving DecidableEq, Repr

def Member.range? : Member → Option (Char × Char)
  | .single c => some (c, c)
  | .range low high => some (low, high)
  | .named _ => none

/-- The set of a bracket expression without named classes. -/
def Bracket.set? (b : Bracket) : Option CharSet :=
  (b.members.mapM Member.range?).map fun ranges =>
    if b.negated then .except ranges else .members ranges

section

variable (dialect : Dialect)

/-- The name of the class in front of a text: letters between `[:` and `:]`. -/
def className? : List Char → Option (List Char)
  | '[' :: ':' :: rest =>
    let name := rest.takeWhile Char.isAlpha
    if dialect = .named ∧ name ≠ [] ∧ [':', ']'] <+: rest.dropWhile Char.isAlpha then some name
    else none
  | _ => none

/-- The parts of a bracket expression, and how far the bracket reaches that closes it.
The first `skip` characters belong to a part that has been read already, and `first`
says whether there is no part yet, so that a closing bracket is one. -/
def parts? : (skip : Nat) → (first : Bool) → List Char → Option (List Part × Nat)
  | _, _, [] => none
  | skip + 1, first, _ :: rest => (parts? skip first rest).map fun (parts, n) => (parts, n + 1)
  | 0, first, c :: rest =>
    if c = ']' ∧ first = false then some ([], 1)
    else match className? dialect (c :: rest) with
      | some name =>
        -- After the first bracket stand a colon, the name, a colon and the other bracket.
        (parts? (name.length + 3) false rest).map fun (parts, n) => (.named name :: parts, n + 1)
      | none => match glyph? (c :: rest) with
        | none => none
        | some (g, length) =>
          (parts? (length - 1) false rest).map fun (parts, n) => (.glyph g :: parts, n + 1)

/-- The bracket expression in front of a text, and how many characters spell it. A caret
in front takes the other characters. -/
def readBracket? : List Char → Option (Bracket × Nat)
  | '[' :: '^' :: rest =>
    (parts? dialect 0 true rest).map fun (parts, n) => (⟨true, Flex.members parts⟩, n + 2)
  | '[' :: rest =>
    (parts? dialect 0 true rest).map fun (parts, n) => (⟨false, Flex.members parts⟩, n + 1)
  | _ => none

example : readBracket? .named "[^]a-f\\0610[:alpha:]-] b".toList = some (⟨true, [.single ']',
    .range 'a' 'f', .single '1', .single '0', .named "alpha".toList, .single '-']⟩, 22) := by
  decide

/-! ## Lexemes -/

/-- What belongs together in a pattern text. -/
inductive Lexeme where
  | glyph (g : Glyph)
  | quoted (text : List Char)
  | bracket (b : Bracket)
  | braces (name : List Char)
  deriving DecidableEq, Repr

/-- The lexeme in front of a text, and how many characters spell it. -/
def lexeme? : List Char → Option (Lexeme × Nat)
  | [] => none
  | c :: rest =>
    if c = '"' then (enclosed? '"' 0 rest).map fun (text, n) => (.quoted text, n + 1)
    else if c = '\x7b' then (enclosed? '\x7d' 0 rest).map fun (name, n) => (.braces name, n + 1)
    else if c = '[' then (readBracket? dialect (c :: rest)).map fun (b, n) => (.bracket b, n)
    else (glyph? (c :: rest)).map fun (g, n) => (.glyph g, n)

/-- The lexemes of a text, whose first `skip` characters belong to one that has been
read already. -/
def lexemes? : (skip : Nat) → List Char → Option (List Lexeme)
  | _, [] => some []
  | skip + 1, _ :: rest => lexemes? skip rest
  | 0, c :: rest =>
    match lexeme? dialect (c :: rest) with
    | none => none
    | some (l, length) => (lexemes? (length - 1) rest).map (l :: ·)

end

/-! ## Tokens -/

/-- The operators between bracket expressions. -/
inductive SetOperator where
  | union
  | difference
  deriving DecidableEq, Repr

def SetOperator.apply : SetOperator → CharSet → CharSet → CharSet
  | .union => .union
  | .difference => .difference

/-- A part of a pattern text. -/
inductive Token where
  /-- A pattern in itself: a quoted text, a character, the dot or a macro. -/
  | atom (p : Pattern)
  | bracket (s : CharSet)
  | operator (op : SetOperator)
  | repetition (op : Repetition)
  | bar
  | opening
  | closing
  deriving DecidableEq, Repr

/-- The characters that mean something outside of quotes which is not read here. -/
def isReserved (c : Char) : Bool :=
  c ∈ ['^', '$', '/', '<', '>', ']', '\x7d', ' ', '\t', '\r', '\x0b', '\x0c']

/-- The dot: any character but a newline. -/
def dot : Pattern :=
  .set (.except [('\n', '\n')])

/-- The token of a plain character. -/
def plainToken? : Char → Option Token
  | '(' => some .opening
  | ')' => some .closing
  | '|' => some .bar
  | '*' => some (.repetition .star)
  | '+' => some (.repetition .plus)
  | '?' => some (.repetition .opt)
  | '.' => some (.atom dot)
  | c => if isReserved c then none else some (.atom (.literal [c]))

section

variable (macroPattern? : List Char → Option Pattern)

/-- The token of a name in braces. -/
def bracesToken? (name : List Char) : Option Token :=
  if name = ['-'] then some (.operator .difference)
  else if name = ['+'] then some (.operator .union)
  else (macroPattern? name).map .atom

def token? : Lexeme → Option Token
  | .glyph (.plain c) => plainToken? c
  | .glyph (.escaped c) => some (.atom (.literal [c]))
  | .quoted text => some (.atom (.literal text))
  | .bracket b => b.set?.map .bracket
  | .braces name => bracesToken? macroPattern? name

/-- The tokens of a text. -/
def tokens? (text : List Char) : Option (List Token) := do
  let ls ← lexemes? .plain 0 text
  ls.mapM (token? macroPattern?)

end

/-! ## Parentheses and operators -/

/-- What has been read inside a parenthesis: the finished branches and the factors of
the last one, the latest first. -/
structure Frame where
  done : List Pattern
  current : List Pattern
  deriving DecidableEq, Repr

/-- The factors of a branch, the latest first, one after the other. -/
def sequenceOf : List Pattern → Pattern
  | [] => .literal []
  | [p] => p
  | p :: before => .seq (sequenceOf before) p

/-- A branch, or one of those before it. -/
def choiceOf (last : Pattern) : List Pattern → Pattern
  | [] => last
  | p :: before => .alt (choiceOf p before) last

/-- What the inside of a parenthesis means; its last branch may not be missing. -/
def Frame.close? (f : Frame) : Option Pattern :=
  if f.current = [] then none else some (choiceOf (sequenceOf f.current) f.done)

def Frame.push (f : Frame) (p : Pattern) : Frame :=
  { f with current := p :: f.current }

/-- What the last token was, as far as it matters for `{-}` and `{+}`. -/
inductive Phase where
  | ordinary
  | afterBracket
  /-- An operator waits for its second bracket expression. -/
  | awaiting (op : SetOperator)
  deriving DecidableEq, Repr

/-- A reading of tokens: the innermost open parenthesis and those around it. -/
structure Reading where
  frame : Frame := ⟨[], []⟩
  outer : List Frame := []
  phase : Phase := .ordinary
  deriving DecidableEq, Repr

def repeatOf : Repetition → Pattern → Pattern
  | .star => .star
  | .plus => .plus
  | .opt => .opt

namespace Reading

/-- Joins a bracket expression with the one before it. -/
def join? (r : Reading) (op : SetOperator) (s : CharSet) : Option Reading :=
  match r.frame.current with
  | .set left :: before =>
    some ⟨⟨r.frame.done, .set (op.apply left s) :: before⟩, r.outer, .afterBracket⟩
  | _ => none

def repeat? (r : Reading) (op : Repetition) : Option Reading :=
  match r.frame.current with
  | [] => none
  | p :: before => some ⟨⟨r.frame.done, repeatOf op p :: before⟩, r.outer, .ordinary⟩

def bar? (r : Reading) : Option Reading :=
  if r.frame.current = [] then none
  else some ⟨⟨sequenceOf r.frame.current :: r.frame.done, []⟩, r.outer, .ordinary⟩

def closing? (r : Reading) : Option Reading :=
  match r.outer with
  | [] => none
  | f :: outer => do
    let p ← r.frame.close?
    return ⟨f.push p, outer, .ordinary⟩

/-- Takes one token. -/
def step (r : Reading) (t : Token) : Option Reading :=
  match r.phase, t with
  -- An operator stands between two bracket expressions and nowhere else.
  | .awaiting op, .bracket s => r.join? op s
  | .awaiting _, _ => none
  | _, .atom p => some ⟨r.frame.push p, r.outer, .ordinary⟩
  | _, .bracket s => some ⟨r.frame.push (.set s), r.outer, .afterBracket⟩
  | .afterBracket, .operator op => some { r with phase := .awaiting op }
  | .ordinary, .operator _ => none
  | _, .repetition op => r.repeat? op
  | _, .bar => r.bar?
  | _, .opening => some ⟨⟨[], []⟩, r.frame :: r.outer, .ordinary⟩
  | _, .closing => r.closing?

def run (r : Reading) (ts : List Token) : Option Reading :=
  ts.foldlM step r

/-- What has been read, when nothing is left open. -/
def finish? (r : Reading) : Option Pattern :=
  match r.outer, r.phase with
  | [], .ordinary | [], .afterBracket => r.frame.close?
  | _, _ => none

end Reading

/-! ## Texts -/

/-- The pattern of a text, from the patterns of the macros. -/
def readWith (macroPattern? : List Char → Option Pattern) (text : List Char) :
    Option Pattern := do
  let ts ← tokens? macroPattern? text
  let r ← Reading.run {} ts
  r.finish?

/-- The pattern of a macro, whose definition uses no macros. -/
def macroPattern? (macros : List (String × String)) (name : List Char) : Option Pattern := do
  let definition ← macros.lookup (String.ofList name)
  readWith (fun _ => none) definition.toList

/-- The pattern of a text. A macro counts as if it stood in parentheses. -/
def read (macros : List (String × String)) (text : String) : Option Pattern :=
  readWith (macroPattern? macros) text.toList

example : read [("A", "a|b")] "\"x\\\"\"?\x7bA\x7d*[^0-9\\]]\x7b-\x7d[xyz]" =
    some (.seq (.seq (.opt (.literal ['x', '"'])) (.star (.alt (.literal ['a']) (.literal ['b']))))
      (.set (.difference (.except [('0', '9'), (']', ']')])
        (.members [('x', 'x'), ('y', 'y'), ('z', 'z')])))) := by
  decide

end FlexSynth.Flex
