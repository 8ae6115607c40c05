import FlexSynth.Grammar.Error
import FlexSynth.Proofs.Text.Digits
import FlexSynth.Proofs.Text.Display

/-!
# Messages about the schema

The message about a value that breaks the schema tells which check it does not pass, and the
names and numbers that the check is about (`SchemaFault.message_inj`). Each message is taken apart
into its words and the name between quotes, and behind a name the numbers of operands can be read
back as well.
-/

namespace FlexSynth

open Text (Wording append_inj_of_stop isDigit_toDigits toDigits_inj toList_toString)

/-! ## Numbers of operands -/

/-- What is said of the number of operands, behind the kind of the node. -/
def operandTail (expected actual : Nat) : String :=
  s!" takes {expected} operand(s), got {actual}"

theorem toList_operandTail (expected actual : Nat) : (operandTail expected actual).toList =
    " takes ".toList ++ (Nat.toDigits 10 expected ++
      (" operand(s), got ".toList ++ Nat.toDigits 10 actual)) := by
  have htail : operandTail expected actual =
      " takes " ++ toString expected ++ " operand(s), got " ++ toString actual := rfl
  simp only [htail, String.toList_append, toList_toString, List.append_assoc]

theorem operandTail_inj {m n k l : Nat} (h : operandTail m n = operandTail k l) :
    m = k ∧ n = l := by
  have hlist := congrArg String.toList h
  rw [toList_operandTail, toList_operandTail] at hlist
  obtain ⟨hexpected, hactual⟩ := append_inj_of_stop isDigit_toDigits isDigit_toDigits
    (by rintro _ ⟨⟩; rfl) (by rintro _ ⟨⟩; rfl) (List.append_cancel_left hlist)
  exact ⟨toDigits_inj hexpected, toDigits_inj (List.append_cancel_left hactual)⟩

/-- A number stands where other messages have words. -/
theorem operandTail_ne {m n : Nat} {words : String}
    (hwords : words.toList[7]?.any Char.isDigit = false) : operandTail m n ≠ words := by
  rintro rfl
  obtain ⟨d, ds, hdigits⟩ := List.exists_cons_of_ne_nil (Nat.toDigits_ne_nil (n := m) (b := 10))
  have hd : d.isDigit = true := isDigit_toDigits d (hdigits ▸ List.mem_cons_self)
  rw [toList_operandTail, List.getElem?_append_right (by decide), hdigits] at hwords
  exact absurd hd (Bool.eq_false_iff.mp hwords)

/-! ## Faults -/

def SchemaFault.wording : SchemaFault → Wording
  | .grammarNotObject => ⟨"grammar must be a JSON object", none⟩
  | .unknownKey key => ⟨"unknown key ", some (key, "")⟩
  | .notStrings => ⟨"expected a list of strings", none⟩
  | .unknownCategory name => ⟨"unknown category ", some (name, "")⟩
  | .emptyKeyword => ⟨"empty keyword", none⟩
  | .tokensNotList => ⟨"expected a list of token pragmas", none⟩
  | .tokenNotObject => ⟨"token pragma must be an object", none⟩
  | .tokenUnnamed => ⟨"token pragma needs a non-empty ", some ("name", "")⟩
  | .tokenWithoutRegex name => ⟨"token ", some (name, " has no 'regex'")⟩
  | .commentsNotObject => ⟨"expected an object", none⟩
  | .emptyDelimiter => ⟨"empty comment delimiter", none⟩
  | .blocksNotList => ⟨"expected a list of [start, end] pairs", none⟩
  | .notDelimiterPair => ⟨"expected a [start, end] pair of delimiters", none⟩
  | .notNode => ⟨"regex node must be a list starting with its kind", none⟩
  | .operandCount kind expected actual => ⟨"", some (kind, operandTail expected actual)⟩
  | .notOneCharacter => ⟨"", some ("char", " takes a single character")⟩
  | .notText kind => ⟨"", some (kind, " takes a string")⟩
  | .noBranches => ⟨"", some ("alt", " needs at least one branch")⟩
  | .unknownKind kind => ⟨"unknown regex kind ", some (kind, "")⟩

theorem SchemaFault.text_wording (fault : SchemaFault) : fault.wording.text = fault.message := by
  cases fault with
  | unknownKey | unknownCategory | unknownKind => exact String.append_empty
  | tokenUnnamed | notOneCharacter | noBranches => decide +kernel
  | operandCount kind expected actual =>
    show "" ++ Text.display kind ++ (" takes " ++ toString expected ++ " operand(s), got "
      ++ toString actual) = Text.display kind ++ " takes " ++ toString expected
      ++ " operand(s), got " ++ toString actual
    simp only [String.empty_append, String.append_assoc]
  | notText kind => exact congrArg (· ++ " takes a string") String.empty_append
  | _ => rfl

theorem SchemaFault.unquoted_wording (fault : SchemaFault) : fault.wording.Unquoted := by
  cases fault <;> simp [Wording.Unquoted, wording]

theorem SchemaFault.wording_inj {fault other : SchemaFault} (h : fault.wording = other.wording) :
    fault = other := by
  cases fault <;> cases other <;>
    simp only [wording, Wording.mk.injEq, String.reduceEq, Option.some.injEq, Prod.mk.injEq,
      reduceCtorEq, false_and, and_false, true_and, and_true] at h ⊢
  case operandCount.operandCount =>
    obtain ⟨rfl, htail⟩ := h
    obtain ⟨rfl, rfl⟩ := operandTail_inj htail
    rfl
  case operandCount.notOneCharacter | operandCount.notText | operandCount.noBranches =>
    exact operandTail_ne (by decide) h.2
  case notOneCharacter.operandCount | notText.operandCount | noBranches.operandCount =>
    exact operandTail_ne (by decide) h.2.symm
  all_goals rw [h]

/-- The message tells the check that a value does not pass, and what it is about. -/
theorem SchemaFault.message_inj {fault other : SchemaFault}
    (h : fault.message = other.message) : fault = other := by
  rw [← text_wording, ← text_wording] at h
  exact wording_inj (Wording.text_inj (unquoted_wording _) (unquoted_wording _) h)

end FlexSynth
