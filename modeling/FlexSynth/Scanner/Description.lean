import FlexSynth.Scanner.Render

/-!
# Scanner descriptions

A description is what flex reads: a prelude of C code, definitions of macros and
start states, rules, and C code at the end. `Description.text` writes it out.
-/

namespace FlexSynth

structure Description where
  prelude : List String
  macros : List (String × String)
  startStates : List String
  rules : List Rule
  footer : List String
  deriving DecidableEq, Repr

structure Sections where
  prelude : String
  definitions : String
  rules : String
  footer : String
  deriving DecidableEq, Repr

/-- The parts in order, each on lines of its own. -/
def Sections.text (s : Sections) : String :=
  Text.joinLines [s.prelude, s.definitions, s.rules, s.footer] ++ "\n"

def macroLines (macros : List (String × String)) : List String :=
  macros.map fun (name, definition) => name ++ " " ++ definition

def startLine (states : List String) : String :=
  Text.joinWith " " ("%START" :: states)

namespace Description

def definitions (d : Description) : List String :=
  macroLines d.macros ++ [startLine d.startStates, "", "%%  /* Rules. */"]

def closing (d : Description) : List String :=
  ["", "%%  /* Initialization code. */", ""] ++ d.footer

def sections (d : Description) : Except RenderFault Sections := do
  let rules ← renderRules d.rules
  return { prelude := Text.joinLines d.prelude, definitions := Text.joinLines d.definitions,
           rules, footer := Text.joinLines d.closing }

/-- The text that flex reads. -/
def text (d : Description) : Except RenderFault String := do
  let sections ← d.sections
  return sections.text

/-- The rules that are active in a start state. -/
def rulesIn (d : Description) (state : String) : List Rule :=
  d.rules.filter (Rule.activeIn state)

def ruleLine (r : Rule) : String :=
  match r.token? with
  | none | some "" => s!"    {r.pattern}\n"
  | some token => s!"    {r.pattern} -> {token}\n"

def stateLines (d : Description) (state : String) : String :=
  let rules := d.rulesIn state
  s!"  {state} ({rules.length})\n" ++ String.join (rules.map ruleLine)

/-- The listing of a description, by start state. -/
def dump (d : Description) : String :=
  s!"ScannerSpec ({d.rules.length} rules)\n" ++ String.join (d.startStates.map d.stateLines)

end Description

end FlexSynth
