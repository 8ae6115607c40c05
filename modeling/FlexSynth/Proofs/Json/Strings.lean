import FlexSynth.Json.Print
import FlexSynth.Proofs.Json.LineEnds

/-!
# Strings, written and read

A string that is written is read back (`stringAfterQuote_flatMap`), whatever characters it
holds. The reader sees UTF-16 units before it sees characters. So the proof goes by way of the
units of a character: what is written for a character is read as its units
(`stringBody_stringChar`), and the units of a text are joined to its characters again
(`joinSurrogates_flatMap_units`), for no unit of one character is taken for half of another.

An escape is read with the character after it, so the lemmas about one character are stated for
a rest that can be read.

What is written is ASCII (`isAscii_printString`).
-/

namespace FlexSynth.Json

/-! ## Hexadecimal digits -/

theorem hexDigit_mod (n : Nat) : Text.hexDigit (n % 16) = Text.hexDigit n := by
  unfold Text.hexDigit
  rw [Nat.mod_mod]

theorem hexValue?_hexDigit (n : Nat) : hexValue? (Text.hexDigit n) = some (n % 16) := by
  have hdigits : ∀ k < 16, hexValue? (Text.hexDigit k) = some k := by decide
  rw [← hexDigit_mod]
  exact hdigits _ (Nat.mod_lt n (by decide))

theorem hexEscape?_hex {unit : Nat} (hunit : unit < 0x10000) (c : Char) (rest : List Char) :
    hexEscape? 4 0 (Text.hex 4 unit ++ c :: rest) = some (unit, c :: rest) := by
  have hvalue : 16 * (16 * (16 * (unit / 16 / 16 / 16 % 16) + unit / 16 / 16 % 16)
      + unit / 16 % 16) + unit % 16 = unit := by omega
  simp [Text.hex, hexEscape?, hexValue?_hexDigit, hvalue]

/-! ## Characters -/

/-- The UTF-16 units of a character. -/
def units (c : Char) : List Nat :=
  if c.toNat < 0x10000 then [c.toNat]
  else [0xd800 + (c.toNat - 0x10000) / 0x400, 0xdc00 + (c.toNat - 0x10000) % 0x400]

theorem isValidChar_toNat (c : Char) : c.toNat.isValidChar :=
  c.valid

theorem units_of_lt {c : Char} (h : c.toNat < 0x10000) : units c = [c.toNat] :=
  if_pos h

section

variable {opened : Nat} {cs rest : List Char} {ns : List Nat}

/-- The body of a string has an end. -/
theorem exists_cons_of_stringBody (h : stringBody opened cs = .ok (ns, rest)) :
    ∃ c more, cs = c :: more := by
  cases cs with
  | nil => cases h
  | cons c more => exact ⟨c, more, rfl⟩

theorem stringBody_unitEscape {unit : Nat} (hunit : unit < 0x10000)
    (h : stringBody opened cs = .ok (ns, rest)) :
    stringBody opened (unitEscape unit ++ cs) = .ok (unit :: ns, rest) := by
  obtain ⟨c, more, rfl⟩ := exists_cons_of_stringBody h
  unfold unitEscape
  rw [List.cons_append, List.cons_append, stringBody_hex, hexEscape?_hex hunit]
  dsimp only
  rw [h]
  rfl

theorem stringBody_letter {letter c : Char} (hu : letter ≠ 'u') (hc : unescape? letter = some c)
    (h : stringBody opened cs = .ok (ns, rest)) :
    stringBody opened ('\\' :: letter :: cs) = .ok (c.toNat :: ns, rest) := by
  rw [stringBody_escape hu, hc]
  dsimp only
  rw [h]
  rfl

theorem stringBody_self {c : Char} (hquote : c ≠ '"') (hescape : c ≠ '\\')
    (hcontrol : ¬c.toNat < 0x20) (h : stringBody opened cs = .ok (ns, rest)) :
    stringBody opened (c :: cs) = .ok (c.toNat :: ns, rest) := by
  rw [stringBody_plain hquote hescape, if_neg hcontrol, h]
  rfl

theorem stringBody_hexEscape (c : Char) (h : stringBody opened cs = .ok (ns, rest)) :
    stringBody opened (hexEscape c ++ cs) = .ok (units c ++ ns, rest) := by
  unfold hexEscape units
  split
  · next hc => exact stringBody_unitEscape hc h
  · next hc =>
    have hvalid := isValidChar_toNat c
    unfold Nat.isValidChar at hvalid
    rw [List.append_assoc]
    exact stringBody_unitEscape (by omega) (stringBody_unitEscape (by omega) h)

/-- What is written for a character is read as its units. -/
theorem stringBody_stringChar (c : Char) (h : stringBody opened cs = .ok (ns, rest)) :
    stringBody opened (stringChar c ++ cs) = .ok (units c ++ ns, rest) := by
  have hletter {letter : Char} (hu : letter ≠ 'u') (hc : unescape? letter = some c)
      (hlow : c.toNat < 0x10000) :
      stringBody opened (['\\', letter] ++ cs) = .ok (units c ++ ns, rest) := by
    rw [units_of_lt hlow]
    exact stringBody_letter hu hc h
  unfold stringChar
  split
  · next hc => rcases hc with rfl | rfl <;> exact hletter (by decide) rfl (by decide)
  · next hsyntax =>
    obtain ⟨hquote, hescape⟩ := not_or.mp hsyntax
    split
    · next hc => subst hc; exact hletter (by decide) rfl (by decide)
    split
    · next hc => subst hc; exact hletter (by decide) rfl (by decide)
    split
    · next hc => subst hc; exact hletter (by decide) rfl (by decide)
    split
    · next hc => subst hc; exact hletter (by decide) rfl (by decide)
    split
    · next hc => subst hc; exact hletter (by decide) rfl (by decide)
    split
    · next hprintable =>
      rw [units_of_lt (by omega)]
      exact stringBody_self hquote hescape (by omega) h
    · exact stringBody_hexEscape c h

/-- A text that is written is read as the units of its characters, through its quote. -/
theorem stringBody_flatMap (opened : Nat) (text rest : List Char) :
    stringBody opened (text.flatMap stringChar ++ '"' :: rest) =
      .ok (text.flatMap units, rest) := by
  induction text with
  | nil => rfl
  | cons c text ih =>
    rw [List.flatMap_cons, List.flatMap_cons, List.append_assoc]
    exact stringBody_stringChar c ih

end

/-! ## Units -/

theorem standIn_toNat (c : Char) : standIn c.toNat = c := by
  unfold standIn
  rw [if_pos (isValidChar_toNat c), Char.ofNat_toNat]

/-- The units of a character are joined to it, whatever follows. -/
theorem joinSurrogates_units (c : Char) (ns : List Nat) :
    joinSurrogates (units c ++ ns) = c :: joinSurrogates ns := by
  have hvalid := isValidChar_toNat c
  unfold Nat.isValidChar at hvalid
  unfold units
  split
  · next hlow =>
    cases ns with
    | nil =>
      show [standIn c.toNat] = [c]
      rw [standIn_toNat]
    | cons n ns =>
      have hhigh : ¬(0xd800 ≤ c.toNat ∧ c.toNat < 0xdc00 ∧ 0xdc00 ≤ n ∧ n < 0xe000) := by omega
      rw [List.singleton_append, joinSurrogates, if_neg hhigh, standIn_toNat]
  · next hlow =>
    have hpair : 0x10000 + (0xd800 + (c.toNat - 0x10000) / 0x400 - 0xd800) * 0x400
        + (0xdc00 + (c.toNat - 0x10000) % 0x400 - 0xdc00) = c.toNat := by omega
    rw [List.cons_append, List.singleton_append, joinSurrogates, if_pos (by omega), hpair,
      Char.ofNat_toNat]

theorem joinSurrogates_flatMap_units (cs : List Char) :
    joinSurrogates (cs.flatMap units) = cs := by
  induction cs with
  | nil => rfl
  | cons c cs ih => rw [List.flatMap_cons, joinSurrogates_units, ih]

/-! ## Strings -/

/-- What is written for a text after the opening quote is read as the text. -/
theorem stringAfterQuote_flatMap (text : String) (rest : List Char) :
    stringAfterQuote (text.toList.flatMap stringChar ++ '"' :: rest) = .ok (text, rest) := by
  unfold stringAfterQuote
  rw [stringBody_flatMap]
  dsimp only [bind, Except.bind, pure, Except.pure]
  rw [joinSurrogates_flatMap_units, String.ofList_toList]

/-! ## ASCII -/

def IsAscii (cs : List Char) : Prop :=
  ∀ c ∈ cs, c.toNat < 0x80

instance (cs : List Char) : Decidable (IsAscii cs) :=
  List.decidableBAll _ cs

theorem isAscii_append {cs ds : List Char} : IsAscii (cs ++ ds) ↔ IsAscii cs ∧ IsAscii ds :=
  List.forall_mem_append

theorem isAscii_cons {c : Char} {cs : List Char} :
    IsAscii (c :: cs) ↔ c.toNat < 0x80 ∧ IsAscii cs :=
  List.forall_mem_cons

theorem isAscii_hex (width n : Nat) : IsAscii (Text.hex width n) := by
  have hdigits : ∀ k < 16, (Text.hexDigit k).toNat < 0x80 := by decide
  induction width generalizing n with
  | zero => exact List.forall_mem_nil _
  | succ width ih =>
    rw [Text.hex, isAscii_append, isAscii_cons, ← hexDigit_mod]
    exact ⟨ih _, hdigits _ (Nat.mod_lt n (by decide)), List.forall_mem_nil _⟩

theorem isAscii_unitEscape (unit : Nat) : IsAscii (unitEscape unit) :=
  isAscii_cons.mpr ⟨by decide, isAscii_cons.mpr ⟨by decide, isAscii_hex 4 unit⟩⟩

theorem isAscii_hexEscape (c : Char) : IsAscii (hexEscape c) := by
  unfold hexEscape
  split
  · exact isAscii_unitEscape _
  · exact isAscii_append.mpr ⟨isAscii_unitEscape _, isAscii_unitEscape _⟩

theorem isAscii_stringChar (c : Char) : IsAscii (stringChar c) := by
  unfold stringChar
  split
  · next hc => rcases hc with rfl | rfl <;> decide
  iterate 5
    split
    · decide
  split
  · next hprintable => exact isAscii_cons.mpr ⟨by omega, List.forall_mem_nil _⟩
  · exact isAscii_hexEscape c

theorem isAscii_printString (text : String) : IsAscii (printString text) := by
  unfold printString
  rw [isAscii_cons, isAscii_append]
  refine ⟨by decide, ?_, by decide⟩
  intro d hd
  obtain ⟨c, _, hmem⟩ := List.mem_flatMap.mp hd
  exact isAscii_stringChar c d hmem

end FlexSynth.Json
