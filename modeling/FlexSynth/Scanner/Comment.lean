import FlexSynth.Grammar.Basic
import FlexSynth.Scanner.Rule

/-!
# Comments

A line comment is one rule: its delimiter and the rest of the line. Each form of
block comment has a start state of its own, so that several forms can exist side
by side. Comments do not nest: in a comment state, a start delimiter is text.

A note names the delimiters of a rule. It becomes a C comment, so it is left out
when a delimiter would open or close one.
-/

namespace FlexSynth

/-- The start state of the `n`-th form of block comment. -/
def commentState : Nat → String
  | 0 => "COMMENT"
  | n + 1 => "COMMENT" ++ toString (n + 1)

def commentStates (n : Nat) : List String :=
  (List.range n).map commentState

/-- The note about some delimiters. -/
def delimiterNote (label : String) (delimiters : List String) : Option String :=
  if delimiters.any (Text.hasCommentMarker ·.toList) then none
  else some (String.join (label :: delimiters.map (" " ++ Text.cString ·)))

/-- Skips the delimiter and the rest of its line. -/
def lineCommentRule (delimiter : String) : Rule where
  states := [StartState.initial]
  pattern := Text.cString delimiter ++ "[^\\n]*"
  actions := [.skip "skip"]
  note := delimiterNote "comment" [delimiter]

/-- Enters the state at the start delimiter, and skips until the end delimiter. -/
def blockCommentRules (form : BlockForm) (state : String) : List Rule :=
  [{ states := [StartState.initial], pattern := Text.cString form.start,
     actions := [.begin state],
     note := delimiterNote "block comment" [form.start, form.stop] },
   .ofState state (Text.cString form.stop) [.begin StartState.initial],
   .ofState state "." [.skip "skip"],
   .ofState state "[\\n]" [.skip "skip"]]

namespace CommentForms

def states (forms : CommentForms) : List String :=
  commentStates forms.block.length

/-- The rules of the line comments, then those of the block comments. -/
def rules (forms : CommentForms) : List Rule :=
  forms.line.map lineCommentRule
    ++ forms.block.zipIdx.flatMap fun (form, n) => blockCommentRules form (commentState n)

end CommentForms

end FlexSynth
