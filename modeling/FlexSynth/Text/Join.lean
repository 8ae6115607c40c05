/-!
# Joined texts

Texts with a separator between each two of them.
-/

namespace FlexSynth.Text

/-- The texts in order, with `separator` between neighbours. -/
def joinWith (separator : String) : List String → String
  | [] => ""
  | [text] => text
  | text :: rest => text ++ separator ++ joinWith separator rest

/-- The texts in order, one a line; the last line is not ended. -/
def joinLines (lines : List String) : String :=
  joinWith "\n" lines

/-- A text with blanks after it, up to a width. -/
def padRight (width : Nat) (text : String) : String :=
  text ++ String.ofList (List.replicate (width - text.length) ' ')

end FlexSynth.Text
