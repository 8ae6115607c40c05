/-!
# Integers with too many digits

An integer in base ten is not converted when it has more than 4300 digits. Formats put no
bound on an integer, so a text may follow the rules of its format and still not be read.
-/

namespace FlexSynth.Text

/-- The number of digits that an integer may have; a sign does not count. -/
def maxDigits : Nat := 4300

/-- An integer that is not converted, by the number of its digits. -/
structure LongInteger where
  digits : Nat
  deriving DecidableEq, Repr

def LongInteger.message (e : LongInteger) : String :=
  s!"Exceeds the limit ({maxDigits} digits) for integer string conversion: " ++
    s!"value has {e.digits} digits; use sys.set_int_max_str_digits() to increase the limit"

/-- The failure of an integer of so many digits, if they are too many. -/
def longInteger? (digits : Nat) : Option LongInteger :=
  if maxDigits < digits then some ⟨digits⟩ else none

end FlexSynth.Text
