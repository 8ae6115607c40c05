import FlexSynth.Proofs.Json.Strings
import FlexSynth.Text.Display
import Mathlib.Algebra.Group.Nat.Defs
import Mathlib.Data.List.TakeWhile

/-!
# Texts shown in messages, read back

A text between quotes can be told from the message that shows it, whatever follows it there
(`display_append_inj`). The first quote is the one that also closes the text, and it is not the
start of any character as it is shown. A character can be read back with any rest behind it
(`readShown?_displayChar`): an escape says by its letter how many digits it has.

So a message with one text between quotes is known by the words up to the first quote, the text,
and the words behind it (`Wording.text_inj`).
-/

namespace FlexSynth.Text

/-! ## Characters -/

/-- A character from its code point in so many hexadecimal digits, and the rest. -/
def readHex? (width : Nat) (cs : List Char) : Option (Char × List Char) :=
  (Json.hexNumber? (cs.take width)).map fun n => (Char.ofNat n, cs.drop width)

/-- The character that is shown first, and the rest. -/
def readShown? : List Char → Option (Char × List Char)
  | '\\' :: letter :: rest =>
    if letter = 'n' then some ('\n', rest)
    else if letter = 'r' then some ('\r', rest)
    else if letter = 't' then some ('\t', rest)
    else if letter = 'x' then readHex? 2 rest
    else if letter = 'u' then readHex? 4 rest
    else if letter = 'U' then readHex? 8 rest
    else some (letter, rest)
  | c :: rest => some (c, rest)
  | [] => none

section

variable {c : Char} {rest : List Char}

theorem length_hex (width n : Nat) : (hex width n).length = width := by
  induction width generalizing n with
  | zero => rfl
  | succ width ih => rw [hex, List.length_append, ih, List.length_singleton]

theorem hexNumber?_hex (width n : Nat) : Json.hexNumber? (hex width n) = some (n % 16 ^ width) := by
  induction width generalizing n with
  | zero => simp [hex, Json.hexNumber?, Nat.mod_one]
  | succ width ih =>
    have hsplit : 16 * (n / 16 % 16 ^ width) + n % 16 = n % 16 ^ (width + 1) := by
      rw [Nat.pow_succ', Nat.mod_mul, Nat.add_comm]
    unfold Json.hexNumber? at ih ⊢
    rw [hex, List.foldlM_append, ih]
    simp [Json.hexValue?_hexDigit, hsplit]

theorem readHex?_hex {width : Nat} (h : c.toNat < 16 ^ width) :
    readHex? width (hex width c.toNat ++ rest) = some (c, rest) := by
  unfold readHex?
  rw [List.take_left' (length_hex _ _), List.drop_left' (length_hex _ _), hexNumber?_hex,
    Nat.mod_eq_of_lt h, Option.map_some, Char.ofNat_toNat]

theorem readShown?_hexEscape : readShown? (hexEscape c ++ rest) = some (c, rest) := by
  unfold hexEscape
  split
  · next hsmall => exact readHex?_hex hsmall
  split
  · next hmiddle => exact readHex?_hex hmiddle
  · exact readHex?_hex c.val.toNat_lt

/-- A character is read back from how it is shown. -/
theorem readShown?_displayChar {quote : Char} (hquote : quote = '\'' ∨ quote = '"') :
    readShown? (displayChar quote c ++ rest) = some (c, rest) := by
  unfold displayChar
  split
  · next hescaped =>
    rcases hescaped with rfl | rfl
    · rcases hquote with rfl | rfl <;> rfl
    · rfl
  split
  · next hc => rw [hc]; rfl
  split
  · next hc => rw [hc]; rfl
  split
  · next hc => rw [hc]; rfl
  split
  · next hnot _ _ _ _ =>
    rw [not_or] at hnot
    simp [readShown?, hnot.2]
  · exact readShown?_hexEscape

theorem hexEscape_eq (c : Char) : ∃ more, hexEscape c = '\\' :: more := by
  unfold hexEscape
  split
  · exact ⟨_, rfl⟩
  split
  · exact ⟨_, rfl⟩
  · exact ⟨_, rfl⟩

/-- No character is shown with the closing quote in front. -/
theorem displayChar_eq {quote : Char} (hquote : quote = '\'' ∨ quote = '"') (c : Char) :
    ∃ first more, displayChar quote c = first :: more ∧ first ≠ quote := by
  have hslash : '\\' ≠ quote := by
    rcases hquote with rfl | rfl <;> decide
  unfold displayChar
  split
  · exact ⟨_, _, rfl, hslash⟩
  next hnot =>
  split
  · exact ⟨_, _, rfl, hslash⟩
  split
  · exact ⟨_, _, rfl, hslash⟩
  split
  · exact ⟨_, _, rfl, hslash⟩
  split
  · exact ⟨_, _, rfl, (not_or.mp hnot).1⟩
  · obtain ⟨more, hescape⟩ := hexEscape_eq c
    exact ⟨_, more, hescape, hslash⟩

end

/-! ## Texts -/

section

variable {quote : Char} {x y : List Char}

theorem displayQuote_eq (text : List Char) :
    displayQuote text = '\'' ∨ displayQuote text = '"' := by
  unfold displayQuote
  split
  · exact .inr rfl
  · exact .inl rfl

/-- What is shown up to the closing quote tells the text. -/
theorem flatMap_displayChar_inj (hquote : quote = '\'' ∨ quote = '"') {a b : List Char}
    (h : a.flatMap (displayChar quote) ++ quote :: x = b.flatMap (displayChar quote) ++ quote :: y) :
    a = b ∧ x = y := by
  induction a generalizing b with
  | nil =>
    cases b with
    | nil => exact ⟨rfl, List.tail_eq_of_cons_eq h⟩
    | cons d b =>
      obtain ⟨first, more, hshown, hne⟩ := displayChar_eq hquote d
      rw [List.flatMap_cons, hshown] at h
      exact absurd (List.head_eq_of_cons_eq h).symm hne
  | cons c a ih =>
    cases b with
    | nil =>
      obtain ⟨first, more, hshown, hne⟩ := displayChar_eq hquote c
      rw [List.flatMap_cons, hshown] at h
      exact absurd (List.head_eq_of_cons_eq h) hne
    | cons d b =>
      rw [List.flatMap_cons, List.flatMap_cons, List.append_assoc, List.append_assoc] at h
      have hread := congrArg readShown? h
      rw [readShown?_displayChar hquote, readShown?_displayChar hquote, Option.some.injEq,
        Prod.mk.injEq] at hread
      obtain ⟨rfl, hrest⟩ := ih hread.2
      exact ⟨by rw [hread.1], hrest⟩

/-- A text that is shown at the front of a message can be told, and so can what follows. -/
theorem display_append_inj {a b : String}
    (h : (display a).toList ++ x = (display b).toList ++ y) : a = b ∧ x = y := by
  unfold display at h
  simp only [String.toList_ofList, List.cons_append, List.append_assoc,
    List.nil_append] at h
  obtain ⟨hquote, h⟩ := List.cons.inj h
  rw [hquote] at h
  obtain ⟨htext, hrest⟩ := flatMap_displayChar_inj (displayQuote_eq b.toList) h
  exact ⟨String.toList_inj.mp htext, hrest⟩

end

/-! ## Messages -/

section

variable {p : Char → Bool} {first second rest more : List Char}

theorem takeWhile_append_of_stop (hfirst : ∀ c ∈ first, p c = true)
    (hrest : ∀ c ∈ rest.head?, p c = false) : (first ++ rest).takeWhile p = first := by
  rw [List.takeWhile_append_of_pos hfirst]
  cases rest with
  | nil => simp
  | cons c rest => simp [hrest c rfl]

/-- Two texts are cut at the same place, where the first character is that does not belong. -/
theorem append_inj_of_stop (hfirst : ∀ c ∈ first, p c = true) (hsecond : ∀ c ∈ second, p c = true)
    (hrest : ∀ c ∈ rest.head?, p c = false) (hmore : ∀ c ∈ more.head?, p c = false)
    (h : first ++ rest = second ++ more) : first = second ∧ rest = more := by
  have hsame := congrArg (List.takeWhile p) h
  rw [takeWhile_append_of_stop hfirst hrest, takeWhile_append_of_stop hsecond hmore] at hsame
  subst hsame
  exact ⟨rfl, List.append_cancel_left h⟩

end

/-- A message taken apart: the words up to the first quote, and the text in quotes with the words
behind it, if there is one. -/
structure Wording where
  lead : String
  quoted : Option (String × String)

namespace Wording

def text (w : Wording) : String :=
  match w.quoted with
  | none => w.lead
  | some (name, tail) => w.lead ++ display name ++ tail

/-- The words up to the first quote have none. -/
def Unquoted (w : Wording) : Prop :=
  ∀ c ∈ w.lead.toList, (c ≠ '\'' && c ≠ '"') = true

/-- What follows from the first quote on. -/
def rest (w : Wording) : List Char :=
  match w.quoted with
  | none => []
  | some (name, tail) => (display name).toList ++ tail.toList

variable {v w : Wording}

theorem toList_text (w : Wording) : w.text.toList = w.lead.toList ++ w.rest := by
  unfold text rest
  cases w.quoted with
  | none => exact (List.append_nil _).symm
  | some q => simp only [String.toList_append, List.append_assoc]

theorem head?_rest : ∀ c ∈ w.rest.head?, (c ≠ '\'' && c ≠ '"') = false := by
  unfold rest
  cases w.quoted with
  | none => nofun
  | some q =>
    simp only [display, String.toList_ofList, List.cons_append, List.head?_cons]
    rintro _ ⟨⟩
    rcases displayQuote_eq q.1.toList with hquote | hquote <;> simp [hquote]

theorem rest_inj (h : v.rest = w.rest) : v.quoted = w.quoted := by
  have hshown (q : String × String) : (display q.1).toList ++ q.2.toList ≠ [] := by
    simp [display]
  unfold rest at h
  cases hv : v.quoted with
  | none =>
    cases hw : w.quoted with
    | none => rfl
    | some q =>
      rw [hv, hw] at h
      exact absurd h.symm (hshown q)
  | some p =>
    cases hw : w.quoted with
    | none =>
      rw [hv, hw] at h
      exact absurd h (hshown p)
    | some q =>
      rw [hv, hw] at h
      obtain ⟨hname, htail⟩ := display_append_inj h
      rw [Prod.ext hname (String.toList_inj.mp htail)]

/-- A message can be taken apart in one way. -/
theorem text_inj (hv : v.Unquoted) (hw : w.Unquoted) (h : v.text = w.text) : v = w := by
  have hlist := congrArg String.toList h
  rw [toList_text, toList_text] at hlist
  obtain ⟨hlead, hrest⟩ := append_inj_of_stop hv hw head?_rest head?_rest hlist
  obtain ⟨lead, quoted⟩ := v
  obtain ⟨lead', quoted'⟩ := w
  obtain rfl := String.toList_inj.mp hlead
  obtain rfl : quoted = quoted' := rest_inj hrest
  rfl

end Wording

end FlexSynth.Text
