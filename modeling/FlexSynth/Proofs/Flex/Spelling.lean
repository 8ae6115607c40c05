import FlexSynth.Proofs.Flex.Reading
import FlexSynth.Text.Quoted

/-!
# Spelled characters

How the characters of quoted literals and bracket expressions are read. Both write a
character either as it is or as an escape, and in both an escape is never longer than
its reader takes it to be: an octal one has all of its three digits. So the characters
after it do not matter (`Spelling.glyph?`), and a row of characters is read up to the
one that closes it (`enclosed?_flatMap`).
-/

namespace FlexSynth

namespace Text

/-! ## What escapes are made of -/

/-- What stands after the backslash of an escape, apart from the quote. -/
def escapeCode : List Char :=
  "\\ntrfvba01234567".toList

theorem octalDigit_mem_escapeCode (n : Nat) : octalDigit n ∈ escapeCode := by
  have h : ∀ d < 8, Char.ofNat (0x30 + d) ∈ escapeCode := by decide
  exact h (n % 8) (Nat.mod_lt n (by decide))

section

variable {c : Char}

theorem isControl_eq_false_iff : isControl c = false ↔ 0x20 ≤ c.toNat ∧ c.toNat ≠ 0x7f := by
  unfold isControl
  rw [Bool.or_eq_false_iff, decide_eq_false_iff_not, Nat.not_lt, beq_eq_false_iff_ne]

theorem isControl_of_mem_escapeCode (h : c ∈ escapeCode) : isControl c = false := by
  have hcode : escapeCode.all (!isControl ·) = true := by decide
  simpa using List.all_eq_true.mp hcode c h

theorem isControl_of_mem_octalEscape {d : Char} (h : d ∈ octalEscape c) : isControl d = false := by
  simp only [octalEscape, List.mem_cons, List.not_mem_nil, or_false] at h
  rcases h with rfl | rfl | rfl | rfl
  · decide
  all_goals exact isControl_of_mem_escapeCode (octalDigit_mem_escapeCode _)

end

end Text

namespace Flex

/-! ## Reading an escape -/

/-- One character after the backslash that is neither a digit nor refused. -/
theorem escape?_letter {c : Char} (hdigit : isOctalDigit c = false)
    (hread : ¬(c = '\n' ∨ c = 'x')) (rest : List Char) :
    escape? (c :: rest) = some (escapedLetter c, 1) := by
  rw [escape?, hdigit, if_neg Bool.false_ne_true, if_neg hread]

theorem toNat_octalDigit (n : Nat) : (Text.octalDigit n).toNat = 0x30 + n % 8 := by
  have h : ∀ d < 8, (Char.ofNat (0x30 + d)).toNat = 0x30 + d := by decide
  exact h (n % 8) (Nat.mod_lt n (by decide))

theorem isOctalDigit_octalDigit (n : Nat) : isOctalDigit (Text.octalDigit n) = true := by
  have h : ∀ d < 8, isOctalDigit (Char.ofNat (0x30 + d)) = true := by decide
  exact h (n % 8) (Nat.mod_lt n (by decide))

/-- Three octal digits give a number below 512 back. -/
theorem octalValue_digits {n : Nat} (h : n < 512) :
    octalValue [Text.octalDigit (n / 64), Text.octalDigit (n / 8), Text.octalDigit n] = n := by
  simp only [octalValue, List.foldl_cons, List.foldl_nil, toNat_octalDigit]
  omega

/-- The reader takes three digits at most, so it stops here even before another digit. -/
theorem escape?_octal {c : Char} (h : c.toNat < 512) (rest : List Char) :
    escape? (Text.octalDigit (c.toNat / 64) :: Text.octalDigit (c.toNat / 8) ::
      Text.octalDigit c.toNat :: rest) = some (c, 3) := by
  rw [escape?, if_pos (isOctalDigit_octalDigit _)]
  simp only [List.take_succ_cons, List.take_zero, List.takeWhile_cons, List.takeWhile_nil,
    isOctalDigit_octalDigit, if_true, octalValue_digits h, Char.ofNat_toNat, List.length_cons,
    List.length_nil]

/-! ## Characters, one by one -/

/-- The glyph of a character that is written as `spelling`. -/
def glyphOf (spelling : List Char) (c : Char) : Glyph :=
  if spelling = [c] then .plain c else .escaped c

@[simp] theorem glyphOf_char (spelling : List Char) (c : Char) : (glyphOf spelling c).char = c := by
  unfold glyphOf
  split <;> rfl

theorem glyphOf_self (c : Char) : glyphOf [c] c = .plain c :=
  if_pos rfl

/-- Only what is written as itself is a plain glyph. -/
theorem glyphOf_ne_plain {spelling : List Char} {c d : Char} (h : c = d → spelling ≠ [c]) :
    glyphOf spelling c ≠ .plain d := by
  unfold glyphOf
  split
  · next hsame =>
    intro heq
    exact h (Glyph.plain.inj heq) hsame
  · exact Glyph.noConfusion

/-- How a character is written: as it is, or as an escape that means it whatever follows. -/
inductive Spelling (c : Char) : List Char → Prop
  | plain : c ≠ '\\' → c ≠ '\n' → Spelling c [c]
  | escape {code : List Char} : (∀ rest, escape? (code ++ rest) = some (c, code.length)) →
      Spelling c ('\\' :: code)

theorem glyphOf_escape {code : List Char} {c : Char}
    (h : ∀ rest, escape? (code ++ rest) = some (c, code.length)) :
    glyphOf ('\\' :: code) c = .escaped c := by
  refine if_neg fun hsame => ?_
  -- A backslash alone is no escape.
  rw [(List.cons.inj hsame).2] at h
  cases h []

/-- A spelled character is read, whatever follows it. -/
theorem Spelling.glyph? {c : Char} {spelling : List Char} (h : Spelling c spelling)
    (rest : List Char) :
    Flex.glyph? (spelling ++ rest) = some (glyphOf spelling c, spelling.length) := by
  cases h with
  | plain hslash hline =>
    rw [glyphOf_self, List.singleton_append, Flex.glyph?, if_neg hslash, if_neg hline]
    rfl
  | @escape code hescape =>
    rw [glyphOf_escape hescape, List.cons_append, Flex.glyph?, if_pos rfl, hescape]
    rfl

theorem Spelling.exists_cons {c : Char} {spelling : List Char} (h : Spelling c spelling) :
    ∃ first more, spelling = first :: more := by
  cases h with
  | plain _ _ => exact ⟨_, _, rfl⟩
  | escape _ => exact ⟨_, _, rfl⟩

section

variable {close : Char}

theorem enclosed?_skip (code rest : List Char) : enclosed? close code.length (code ++ rest) =
    (enclosed? close 0 rest).map fun (text, n) => (text, n + code.length) := by
  induction code with
  | nil => exact (Option.map_id' (x := enclosed? close 0 rest)).symm
  | cons c code ih =>
    rw [List.length_cons, List.cons_append, enclosed?, ih, Option.map_map]
    rfl

/-- A character that does not close anything is read as itself. -/
theorem enclosed?_spelling {c : Char} {spelling : List Char} (h : Spelling c spelling)
    (hopen : glyphOf spelling c ≠ .plain close) (rest : List Char) :
    enclosed? close 0 (spelling ++ rest) =
      (enclosed? close 0 rest).map fun (text, n) => (c :: text, n + spelling.length) := by
  have hglyph := h.glyph? rest
  obtain ⟨first, more, rfl⟩ := h.exists_cons
  rw [List.cons_append] at hglyph ⊢
  rw [enclosed?, hglyph]
  dsimp only
  rw [if_neg hopen, glyphOf_char, List.length_cons, Nat.add_sub_cancel, enclosed?_skip,
    Option.map_map]
  rfl

/-- A row of characters is read up to the one that closes it. -/
theorem enclosed?_flatMap (hslash : close ≠ '\\') (hline : close ≠ '\n') {spell : Char → List Char}
    {chars : List Char} (h : ∀ c ∈ chars, Spelling c (spell c))
    (hopen : ∀ c ∈ chars, glyphOf (spell c) c ≠ .plain close) (rest : List Char) :
    enclosed? close 0 (chars.flatMap spell ++ close :: rest) =
      some (chars, (chars.flatMap spell).length + 1) := by
  induction chars with
  | nil =>
    have hglyph : glyph? (close :: rest) = some (.plain close, 1) := by
      rw [Flex.glyph?, if_neg hslash, if_neg hline]
    rw [List.flatMap_nil, List.nil_append, enclosed?, hglyph]
    exact if_pos rfl
  | cons c chars ih =>
    obtain ⟨hc, hspell⟩ := List.forall_mem_cons.mp h
    obtain ⟨hfirst, hchars⟩ := List.forall_mem_cons.mp hopen
    rw [List.flatMap_cons, List.append_assoc, enclosed?_spelling hc hfirst, ih hspell hchars,
      Option.map_some, List.length_append]
    dsimp only
    rw [Nat.add_right_comm, Nat.add_comm (spell c).length]

end

/-! ## The two ways to write a character -/

theorem escapedLetter_of_escapeLetter {c letter : Char} (h : Text.escapeLetter? c = some letter) :
    isOctalDigit letter = false ∧ ¬(letter = '\n' ∨ letter = 'x') ∧ escapedLetter letter = c := by
  unfold Text.escapeLetter? at h
  split at h <;> cases h <;> decide

theorem not_special_of_escapeLetter {c : Char} (h : Text.escapeLetter? c = none) :
    c ≠ '\\' ∧ c ≠ '\n' := by
  constructor
  · rintro rfl
    cases h
  · rintro rfl
    cases h

theorem toNat_lt_of_isControl {c : Char} (h : Text.isControl c = true) : c.toNat < 512 := by
  unfold Text.isControl at h
  rw [Bool.or_eq_true, decide_eq_true_eq, beq_iff_eq] at h
  omega

/-- A quote may stand after a backslash like a letter, if it means nothing special there. -/
theorem spelling_escape {quote : Char} (hdigit : isOctalDigit quote = false)
    (hread : ¬(quote = '\n' ∨ quote = 'x')) (hitself : escapedLetter quote = quote) (c : Char) :
    Spelling c (Text.escape quote c) := by
  unfold Text.escape
  split
  · next hquote =>
    subst hquote
    refine .escape fun rest => ?_
    rw [List.singleton_append, escape?_letter hdigit hread, hitself]
    rfl
  · split
    · next letter hletter =>
      obtain ⟨hdigit, hread, hmeant⟩ := escapedLetter_of_escapeLetter hletter
      refine .escape fun rest => ?_
      rw [List.singleton_append, escape?_letter hdigit hread, hmeant]
      rfl
    · next hletter =>
      obtain ⟨hslash, hline⟩ := not_special_of_escapeLetter hletter
      split
      · next hcontrol => exact .escape (escape?_octal (toNat_lt_of_isControl hcontrol))
      · exact .plain hslash hline

theorem spelling_bracketChar (c : Char) : Spelling c (Regex.bracketChar c) := by
  unfold Regex.bracketChar
  split
  · next hspecial =>
    rcases hspecial with rfl | rfl | rfl | rfl <;>
      exact .escape (escape?_letter rfl (by decide))
  · next hspecial =>
    split
    · next hline =>
      subst hline
      exact .escape (escape?_letter rfl (by decide))
    · next hline =>
      split
      · next htab =>
        subst htab
        exact .escape (escape?_letter rfl (by decide))
      · split
        · next hreturn =>
          subst hreturn
          exact .escape (escape?_letter rfl (by decide))
        · split
          · next hcontrol => exact .escape (escape?_octal (toNat_lt_of_isControl hcontrol))
          · exact .plain (fun h => hspecial (.inl h)) hline

theorem bracketBody_cons (c : Char) (chars : List Char) :
    Regex.bracketBody (c :: chars) = Regex.bracketChar c ++ Regex.bracketBody chars :=
  List.flatMap_cons

theorem toList_bracket (chars : String) :
    (Regex.bracket chars).toList = '[' :: (Regex.bracketBody chars.toList ++ [']']) := by
  simp [Regex.bracket]

/-- A closing quote inside a literal is escaped. -/
theorem escape_ne_quote (c : Char) : glyphOf (Text.escape '"' c) c ≠ .plain '"' := by
  apply glyphOf_ne_plain
  rintro rfl
  decide

/-- What means something inside brackets is escaped. -/
theorem bracketChar_ne_special {d : Char} (h : d = ']' ∨ d = '^' ∨ d = '-') (c : Char) :
    glyphOf (Regex.bracketChar c) c ≠ .plain d := by
  apply glyphOf_ne_plain
  rintro rfl
  rcases h with rfl | rfl | rfl <;> decide

end Flex

end FlexSynth
