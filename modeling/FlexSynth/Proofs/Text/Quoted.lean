import FlexSynth.Proofs.Flex.Lexing

/-!
# Quoted literals are read back

`readLiteral?` reads a literal from its opening quote to its closing one. After a backslash stand
up to three octal digits, as many as there are, or a letter for a control character, or a
character that is meant as it is. C and flex agree on that.

A literal that was written by `Text.quoted` gives its text back, and the reader stops right after
it, whatever comes next (`readLiteral?_quoted`): no escape takes a character of the text along,
and none ends the literal. For that the closing quote must not mean anything after a backslash
(`IsQuote`), which is so for both kinds of quotes. So what holds of a literal holds wherever it
is put, and two literals in a row are read one after the other (`literals_read_back`).
-/

namespace FlexSynth.Text

open Flex (escape? escape?_letter escape?_octal escapedLetter isOctalDigit Lexes)

/-! ## Reading literals -/

/-- What the start of a text stands for after a backslash, and how many characters spell it. A
backslash in front of a character that means nothing special is dropped. -/
def escaped? (text : List Char) : Option (Char × Nat) :=
  match escape? text with
  | some e => some e
  | none => text.head?.map (·, 1)

/-- The rest of a literal, of which the first `skip` characters are part of an escape that has
been read already: its text, and what comes after the closing quote. -/
def readBody? (quote : Char) : (skip : Nat) → List Char → Option (List Char × List Char)
  | _, [] => none
  | skip + 1, _ :: rest => readBody? quote skip rest
  | 0, c :: rest =>
    if c = quote then some ([], rest)
    else if c = '\\' then do
      let (meant, length) ← escaped? rest
      let (text, after) ← readBody? quote length rest
      return (meant :: text, after)
    else do
      let (text, after) ← readBody? quote 0 rest
      return (c :: text, after)

/-- The literal in front of a text, and what comes after it. -/
def readLiteral? (quote : Char) : List Char → Option (List Char × List Char)
  | [] => none
  | c :: rest => if c = quote then readBody? quote 0 rest else none

/-! ## Characters of a literal -/

/-- A quote that a backslash turns into a character of the literal. -/
structure IsQuote (quote : Char) : Prop where
  not_digit : isOctalDigit quote = false
  not_refused : ¬(quote = '\n' ∨ quote = 'x')
  itself : escapedLetter quote = quote
  not_slash : quote ≠ '\\'
  not_control : isControl quote = false

theorem isQuote_double : IsQuote '"' := by
  constructor <;> decide

theorem isQuote_single : IsQuote '\'' := by
  constructor <;> decide

section

variable {quote c : Char} {text rest : List Char}

/-- A character is written as itself, or as an escape that stands for it whatever follows. -/
theorem escape_cases (hquote : IsQuote quote) (c : Char) :
    escape quote c = [c] ∧ c ≠ quote ∧ c ≠ '\\' ∨
      ∃ code, escape quote c = '\\' :: code ∧
        ∀ rest, escape? (code ++ rest) = some (c, code.length) := by
  have hspelling := Flex.spelling_escape hquote.not_digit hquote.not_refused hquote.itself c
  have hother (hself : escape quote c = [c]) : c ≠ quote := by
    rintro rfl
    rw [escape, if_pos rfl] at hself
    cases hself
  generalize escape quote c = spelling at *
  cases hspelling with
  | plain hslash _ => exact .inl ⟨rfl, hother rfl, hslash⟩
  | escape hescape => exact .inr ⟨_, rfl, hescape⟩

theorem readBody?_skip (code : List Char) :
    readBody? quote code.length (code ++ rest) = readBody? quote 0 rest := by
  induction code with
  | nil => rfl
  | cons c code ih => rw [List.length_cons, List.cons_append, readBody?, ih]

theorem readBody?_escape (hquote : IsQuote quote) (c : Char) (rest : List Char) :
    readBody? quote 0 (escape quote c ++ rest) =
      (readBody? quote 0 rest).map fun (text, after) => (c :: text, after) := by
  rcases escape_cases hquote c with ⟨hself, hother, hslash⟩ | ⟨code, hcode, hescape⟩
  · rw [hself, List.singleton_append, readBody?, if_neg hother, if_neg hslash]
    cases readBody? quote 0 rest <;> rfl
  · have hescaped : escaped? (code ++ rest) = some (c, code.length) := by
      rw [escaped?, hescape]
    rw [hcode, List.cons_append, readBody?, if_neg (Ne.symm hquote.not_slash), if_pos rfl,
      hescaped, Option.bind_eq_bind, Option.bind_some]
    dsimp only
    rw [readBody?_skip]
    cases readBody? quote 0 rest <;> rfl

theorem readBody?_flatMap (hquote : IsQuote quote) (text rest : List Char) :
    readBody? quote 0 (text.flatMap (escape quote) ++ quote :: rest) = some (text, rest) := by
  induction text with
  | nil => rw [List.flatMap_nil, List.nil_append, readBody?, if_pos rfl]
  | cons c text ih =>
    rw [List.flatMap_cons, List.append_assoc, readBody?_escape hquote, ih]
    rfl

/-- A quoted text is read back, and the reader stops right after its closing quote. -/
theorem readLiteral?_quoted (hquote : IsQuote quote) (text rest : List Char) :
    readLiteral? quote (quoted quote text ++ rest) = some (text, rest) := by
  unfold quoted
  rw [List.cons_append, List.append_assoc, List.singleton_append, readLiteral?, if_pos rfl]
  exact readBody?_flatMap hquote text rest

-- The digit that follows the control character is not taken for one of its octal digits.
example : readLiteral? '"' "\"\\0011\" + 1".toList = some ("\x011".toList, " + 1".toList) := by
  decide

theorem quoted_injective (hquote : IsQuote quote) : Function.Injective (quoted quote) := by
  intro text other h
  have hread := readLiteral?_quoted hquote text []
  rw [h, readLiteral?_quoted hquote other []] at hread
  exact (congrArg Prod.fst (Option.some.inj hread)).symm

/-! ## The characters of an escape -/

theorem escape_code (quote c : Char) : escape quote c = [c] ∧ isControl c = false ∨
    ∃ code, escape quote c = '\\' :: code ∧ ∀ d ∈ code, d = quote ∨ d ∈ escapeCode := by
  unfold escape
  split
  · next hquote => exact .inr ⟨[c], rfl, by simp [hquote]⟩
  · split
    · next letter hletter =>
      have hcode : letter ∈ escapeCode := by
        unfold escapeLetter? at hletter
        split at hletter <;> cases hletter <;> decide
      exact .inr ⟨[letter], rfl, by simp [hcode]⟩
    · split
      · exact .inr ⟨_, rfl, by simp [octalDigit_mem_escapeCode]⟩
      · next hcontrol => exact .inl ⟨rfl, Bool.eq_false_iff.mpr hcontrol⟩

/-! ## No control characters -/

/-- A control character is never written as it is. -/
theorem isControl_of_mem_escape (hquote : IsQuote quote) {d : Char} (h : d ∈ escape quote c) :
    isControl d = false := by
  rcases escape_code quote c with ⟨hself, hcontrol⟩ | ⟨code, hcode, hmem⟩
  · rw [hself, List.mem_singleton] at h
    exact h ▸ hcontrol
  · rw [hcode, List.mem_cons] at h
    rcases h with rfl | h
    · decide
    · rcases hmem d h with rfl | h
      · exact hquote.not_control
      · exact isControl_of_mem_escapeCode h

theorem isControl_of_mem_quoted (hquote : IsQuote quote) (h : c ∈ quoted quote text) :
    isControl c = false := by
  unfold quoted at h
  rw [List.mem_cons, List.mem_append, List.mem_singleton, List.mem_flatMap] at h
  rcases h with rfl | ⟨d, _, hd⟩ | rfl
  · exact hquote.not_control
  · exact isControl_of_mem_escape hquote hd
  · exact hquote.not_control

end

/-! ## Literals -/

/-- The literal stands for the text. -/
structure WritesOut (quote : Char) (text : List Char) (literal : String) : Prop where
  /-- The closing quote is the last character of the literal, whatever follows. -/
  read : ∀ rest, readLiteral? quote (literal.toList ++ rest) = some (text, rest)
  no_control : ∀ c ∈ literal.toList, 0x20 ≤ c.toNat ∧ c.toNat ≠ 0x7f

section

variable {quote : Char}

theorem writesOut_quoted (hquote : IsQuote quote) (text : List Char) :
    WritesOut quote text (String.ofList (quoted quote text)) where
  read := by
    rw [String.toList_ofList]
    exact readLiteral?_quoted hquote text
  no_control := by
    rw [String.toList_ofList]
    exact fun c hc => isControl_eq_false_iff.mp (isControl_of_mem_quoted hquote hc)

theorem cString_injective : Function.Injective cString := by
  intro text other h
  exact String.toList_injective (quoted_injective isQuote_double (String.ofList_injective h))

theorem cChar_eq_error_iff {text : String} {e : NotOneChar} :
    cChar text = .error e ↔ text.length ≠ 1 ∧ e = ⟨text⟩ := by
  unfold cChar
  rw [← String.length_toList]
  split
  · next c hc => simp [hc]
  · next hmany =>
    have hlength : text.toList.length ≠ 1 := by
      rw [Ne, List.length_eq_one_iff]
      rintro ⟨c, hc⟩
      exact hmany c hc
    simp [hlength, eq_comm]

/-- Two literals in a row are a pattern for the one text and then the other. -/
theorem read_cString_append (macros : List (String × String)) (text other : String) :
    Flex.read macros (cString text ++ cString other) =
      some (.seq (.literal text.toList) (.literal other.toList)) := by
  have hlex : Lexes (Flex.macroPattern? macros) (cString text ++ cString other).toList
      [.atom (.literal text.toList), .atom (.literal other.toList)] := by
    rw [String.toList_append]
    exact (Flex.lexes_cString text).append (Flex.lexes_cString other)
  exact Flex.readWith_of_lexes hlex rfl rfl

end

/-- Literals lose nothing. A string literal is read back as its text, in C and in flex, and so
is a character literal as its character, which every text of one character has and no other
text. The reader stops at the last character of the literal, which has no control character in
it. So different texts have different literals, and two of them in a row are read as the one
text and then the other. -/
theorem literals_read_back :
    (∀ text, WritesOut '"' text.toList (cString text)) ∧
    (∀ macros text, Flex.read macros (cString text) = some (.literal text.toList)) ∧
    Function.Injective cString ∧
    (∀ text other,
      readLiteral? '"' (cString text ++ cString other).toList =
        some (text.toList, (cString other).toList) ∧
      readLiteral? '"' (cString other).toList = some (other.toList, [])) ∧
    (∀ macros text other, Flex.read macros (cString text ++ cString other) =
      some (.seq (.literal text.toList) (.literal other.toList))) ∧
    (∀ c, ∃ literal, cChar (String.singleton c) = .ok literal ∧ WritesOut '\'' [c] literal) ∧
    ∀ text e, cChar text = .error e ↔ text.length ≠ 1 ∧ e = ⟨text⟩ := by
  have hstring (text : String) : WritesOut '"' text.toList (cString text) :=
    writesOut_quoted isQuote_double text.toList
  refine ⟨hstring, Flex.read_cString, cString_injective, fun text other => ⟨?_, ?_⟩,
    read_cString_append, fun c => ⟨_, ?_, writesOut_quoted isQuote_single [c]⟩,
    fun _ _ => cChar_eq_error_iff⟩
  · rw [String.toList_append]
    exact (hstring text).read _
  · simpa using (hstring other).read []
  · simp [cChar]

end FlexSynth.Text
