import FlexSynth.Json.Decode
import FlexSynth.Text.Utf8

/-!
# Surrogates that stand alone

A JSON text may hold escapes for surrogates that are half of no pair. No text has a character
for them, so a decoded value has stand-ins. What is made of the value is told from what a text
with the stand-ins themselves would give by `codePoints`, which puts the surrogates back that
the source has alone. A stand-in that the same source also holds as a character is not kept
apart from the surrogate; messages, listings and exported symbols show the stand-in.
-/

namespace FlexSynth.Json

/-- The surrogates of a row of code points that are half of no pair. -/
def unpaired : List Nat → List Nat
  | high :: low :: rest =>
    if 0xd800 ≤ high ∧ high < 0xdc00 ∧ 0xdc00 ≤ low ∧ low < 0xe000 then unpaired rest
    else if Text.isSurrogate high then high :: unpaired (low :: rest)
    else unpaired (low :: rest)
  | [n] => if Text.isSurrogate n then [n] else []
  | [] => []

/-- The code points of a source with its escapes resolved. In a JSON text every backslash
stands in a string. -/
def resolveEscapes : List Char → List Nat
  | '\\' :: 'u' :: a :: b :: c :: d :: rest =>
    (hexNumber? [a, b, c, d]).getD 'u'.toNat :: resolveEscapes rest
  | '\\' :: letter :: rest => ((unescape? letter).getD letter).toNat :: resolveEscapes rest
  | c :: rest => c.toNat :: resolveEscapes rest
  | [] => []

/-- The surrogates that stand alone in the strings of a source. -/
def loneSurrogates (source : String) : List Nat :=
  unpaired (resolveEscapes source.toList)

/-- The code points of a text in which the stand-ins of these surrogates stand for them. -/
def codePoints (surrogates : List Nat) (text : String) : List Nat :=
  text.toList.map fun c => (surrogates.find? (standIn · = c)).getD c.toNat

end FlexSynth.Json
