import FlexSynth.Proofs.Json.Depth
import Mathlib.Data.List.TakeWhile

/-!
# The places of syntax errors

A text that is not JSON is refused at an offset of it, never behind its end, and at the offset
stands what the fault is about (`standsAt_of_decode`): the quote of a string that is not closed,
the backslash of a bad escape, the first character that is not blank where something else is
missing. The end of the text counts as such a place where something is missing. So it is with an
integer that has too many digits, which stands at the offset where the reading ends.

The readers know a place by the number of characters from it to the end. So what is proved of
them is that they stop at an end of what they were given (`stops_values`), like the rests that
they leave.
-/

namespace FlexSynth.Json

/-! ## Places -/

/-- The first character, if there is one, is not blank. -/
def Unblanked (cs : List Char) : Prop :=
  ∀ c ∈ cs.head?, isBlank c = false

/-- What the fault is about stands at the start of the characters that are left. -/
def SyntaxFault.StandsAt (after : List Char) : SyntaxFault → Prop
  | .byteOrderMark => after.head? = some '\ufeff'
  | .missingValue | .missingName | .missingColon | .missingComma => Unblanked after
  | .extraData => after ≠ [] ∧ Unblanked after
  | .openString => after.head? = some '"'
  | .controlCharacter => ∃ c ∈ after.head?, c.toNat < 0x20
  | .badEscape => after.head? = some '\\'
  | .badHexEscape => after.head? = some 'u'

/-- The characters start with an integer of so many digits, with no digit, fraction or exponent
behind them. -/
def StartsWithInteger (count : Nat) (cs : List Char) : Prop :=
  ∃ sgn ds rest, cs = sgn ++ ds ++ rest ∧ (sgn = [] ∨ sgn = ['-']) ∧
    (∀ c ∈ ds, c.isDigit = true) ∧ ds.length = count ∧ (∀ c ∈ rest.head?, c.isDigit = false) ∧
    (fraction rest).1 = [] ∧ (exponent rest).1 = []

/-- What ends the reading stands at the start of the characters that are left. -/
def Fault.StandsAt (after : List Char) : Fault → Prop
  | .malformed fault => fault.StandsAt after
  | .longInteger e => Text.maxDigits < e.digits ∧ StartsWithInteger e.digits after

theorem unblanked_nil : Unblanked [] := by
  rintro _ ⟨⟩

theorem unblanked_skipBlanks (cs : List Char) : Unblanked (skipBlanks cs) := by
  intro c hc
  have hnot := List.head?_dropWhile_not isBlank cs
  unfold skipBlanks at hc
  rw [hc] at hnot
  exact hnot

theorem unblanked_of_skipBlanks {cs rest : List Char} (h : skipBlanks cs = rest) :
    Unblanked rest :=
  h ▸ unblanked_skipBlanks cs

/-! ## Stops -/

/-- A reading that stops does so where its fault stands, at an end of these characters. -/
def Stops {α : Type} (cs : List Char) (x : Except Stop (Reading α)) : Prop :=
  ∀ stop, x = .error stop →
    ∃ after, after <:+ cs ∧ stop.fault.StandsAt after ∧ stop.remaining = after.length

namespace Stops

variable {α β : Type} {cs ds : List Char} {x : Except Stop (Reading α)}
  {f : Reading α → Except Stop (Reading β)} {fault : SyntaxFault}

theorem ok {found : Reading α} : Stops cs (.ok found) := by
  rintro _ ⟨⟩

theorem error (hsuffix : ds <:+ cs) (h : fault.StandsAt ds) :
    Stops cs (.error ⟨.malformed fault, ds.length⟩ : Except Stop (Reading α)) := by
  rintro _ ⟨⟩
  exact ⟨ds, hsuffix, h, rfl⟩

theorem stopAt (h : fault.StandsAt cs) : Stops cs (stopAt fault cs : Except Stop (Reading α)) :=
  error List.suffix_rfl h

theorem mono (h : ds <:+ cs) (hx : Stops ds x) : Stops cs x := by
  intro stop hstop
  obtain ⟨after, hsuffix, hfault, hremaining⟩ := hx stop hstop
  exact ⟨after, hsuffix.trans h, hfault, hremaining⟩

theorem bind (hleaves : Leaves cs x) (hx : Stops cs x) (hf : ∀ a rest, Stops rest (f (a, rest))) :
    Stops cs (x >>= f) := by
  cases x with
  | error stop =>
    rintro _ ⟨⟩
    exact hx stop rfl
  | ok found => exact .mono (hleaves found.1 found.2 rfl) (hf found.1 found.2)

end Stops

/-! ## Strings -/

/-- A string that is not closed is blamed on its opening quote, so a body stops at an end of the
string with that quote. -/
theorem stops_stringBody {opened : Nat} {whole cs : List Char} (hopened : opened = whole.length + 1)
    (h : cs <:+ whole) : Stops ('"' :: whole) (stringBody opened cs) := by
  have hopen : Stops ('"' :: whole)
      (.error ⟨.malformed .openString, opened⟩ : Except Stop (Reading (List Nat))) :=
    hopened ▸ .error List.suffix_rfl rfl
  have hquote {ds : List Char} (hds : ds <:+ whole) : ds <:+ '"' :: whole :=
    hds.trans (List.suffix_cons _ _)
  have hnext {rest : List Char} {f : Reading (List Nat) → Except Stop (Reading (List Nat))}
      (hrest : rest <:+ whole) (hbody : Stops ('"' :: whole) (stringBody opened rest))
      (hf : ∀ ns after, Stops after (f (ns, after))) :
      Stops ('"' :: whole) (stringBody opened rest >>= f) :=
    .bind (.mono (hquote hrest) (leaves_stringBody opened rest)) hbody hf
  fun_induction stringBody opened cs with
  | case1 => exact hopen
  | case2 => exact .ok
  | case3 => exact hopen
  | case4 a b c d e rest n hn ih =>
    have hrest := (List.suffix_append ['\\', 'u', a, b, c, d] (e :: rest)).trans h
    exact hnext hrest (ih hrest) fun _ _ => .ok
  | case5 a b c d e rest hn =>
    exact .mono (hquote ((List.suffix_cons '\\' _).trans h)) (.stopAt rfl)
  | case6 rest hshort => exact .mono (hquote ((List.suffix_cons '\\' _).trans h)) (.stopAt rfl)
  | case7 letter rest _ _ c hc ih =>
    have hrest := (List.suffix_append ['\\', letter] rest).trans h
    exact hnext hrest (ih hrest) fun _ _ => .ok
  | case8 letter rest _ _ hc => exact .mono (hquote h) (.stopAt rfl)
  | case9 c rest _ _ _ _ _ hcontrol => exact .mono (hquote h) (.stopAt ⟨c, rfl, hcontrol⟩)
  | case10 c rest _ _ _ _ _ hc ih =>
    have hrest := (List.suffix_cons c rest).trans h
    exact hnext hrest (ih hrest) fun _ _ => .ok

theorem stops_stringAfterQuote (cs : List Char) : Stops ('"' :: cs) (stringAfterQuote cs) :=
  .bind (.mono (List.suffix_cons _ cs) (leaves_stringBody _ cs))
    (stops_stringBody rfl List.suffix_rfl) fun _ _ => .ok

/-! ## Numbers -/

/-- What comes behind the digits starts with no digit. -/
theorem digits_eq (cs : List Char) : cs = (digits cs).1 ++ (digits cs).2 ∧
    (∀ c ∈ (digits cs).1, c.isDigit = true) ∧ ∀ c ∈ (digits cs).2.head?, c.isDigit = false := by
  refine ⟨List.takeWhile_append_dropWhile.symm, fun c hc => List.mem_takeWhile_imp hc, ?_⟩
  intro c hc
  have hnot := List.head?_dropWhile_not Char.isDigit cs
  rw [digits] at hc
  rw [hc] at hnot
  exact hnot

theorem digits_append {ds rest : List Char} (hds : ∀ c ∈ ds, c.isDigit = true)
    (hrest : ∀ c ∈ rest.head?, c.isDigit = false) : digits (ds ++ rest) = (ds, rest) := by
  have hstop : rest.takeWhile Char.isDigit = [] ∧ rest.dropWhile Char.isDigit = rest := by
    cases rest with
    | nil => exact ⟨rfl, rfl⟩
    | cons c rest => simp [hrest c rfl]
  rw [digits, List.takeWhile_append_of_pos hds, List.dropWhile_append_of_pos hds, hstop.1, hstop.2,
    List.append_nil]

/-- Behind a zero a digit may come, which is no part of the integer. -/
theorem natural?_eq {cs ds rest : List Char} (h : natural? cs = some (ds, rest)) :
    cs = ds ++ rest ∧ (∀ c ∈ ds, c.isDigit = true) ∧
      (ds.length = 1 ∨ ∀ c ∈ rest.head?, c.isDigit = false) := by
  unfold natural? at h
  split at h
  · cases h
    exact ⟨rfl, by simp, .inl rfl⟩
  · next first more _ =>
    split at h <;> cases h
    obtain ⟨hcut, hdigits, hrest⟩ := digits_eq (first :: more)
    exact ⟨hcut, hdigits, .inr hrest⟩
  · cases h

/-- An integer is its sign and its digits. -/
theorem integer?_eq {cs whole rest : List Char} (h : integer? cs = some (whole, rest)) :
    ∃ sgn ds, cs = sgn ++ ds ++ rest ∧ whole = sgn ++ ds ∧ (sgn = [] ∨ sgn = ['-']) ∧
      (∀ c ∈ ds, c.isDigit = true) ∧ (ds.length = 1 ∨ ∀ c ∈ rest.head?, c.isDigit = false) := by
  unfold integer? at h
  split at h
  · obtain ⟨⟨ds, rest⟩, hnatural, hpair⟩ := Option.map_eq_some_iff.mp h
    cases hpair
    obtain ⟨rfl, hdigits, hrest⟩ := natural?_eq hnatural
    exact ⟨['-'], ds, rfl, rfl, .inr rfl, hdigits, hrest⟩
  · obtain ⟨rfl, hdigits, hrest⟩ := natural?_eq h
    exact ⟨[], whole, rfl, rfl, .inl rfl, hdigits, hrest⟩

/-- Where no fraction is read, nothing is. -/
theorem fraction_of_nil {cs : List Char} (h : (fraction cs).1 = []) : (fraction cs).2 = cs := by
  unfold fraction at *
  split
  · next rest =>
    cases hdigits : digits rest with
    | mk ds after =>
      cases ds with
      | nil => rfl
      | cons d ds => simp [hdigits] at h
  · rfl

theorem standsAt_of_longInteger {cs rest : List Char} {n : Numeral} {e : Text.LongInteger}
    (h : numeral? cs = some (n, rest)) (he : n.longInteger? = some e) :
    (Fault.longInteger e).StandsAt cs := by
  obtain ⟨whole, after, hinteger, rfl, _⟩ := numeral?_eq_some_iff.mp h
  obtain ⟨sgn, ds, rfl, rfl, hsign, hdigits, hafter⟩ := integer?_eq hinteger
  have hcount : ((sgn ++ ds).filter Char.isDigit).length = ds.length := by
    rw [List.filter_append, List.filter_eq_self.mpr hdigits]
    rcases hsign with rfl | rfl <;> rfl
  obtain ⟨⟨hfraction, hexponent⟩, he⟩ := Option.ite_none_right_eq_some.mp he
  obtain ⟨hlong, he⟩ := Option.ite_none_right_eq_some.mp he
  cases he
  dsimp only at hlong hfraction hexponent
  rw [hcount] at hlong
  rw [fraction_of_nil hfraction] at hexponent
  have hmany : ds.length ≠ 1 := by
    unfold Text.maxDigits at hlong
    omega
  exact ⟨hcount ▸ hlong, sgn, ds, after, rfl, hsign, hdigits, hcount.symm,
    hafter.resolve_left hmany, hfraction, hexponent⟩

/-! ## Values -/

theorem stops_scalar {cs : List Char} (h : Unblanked cs) : Stops cs (scalar cs) := by
  unfold scalar
  split
  · exact .ok
  · split
    · exact .stopAt h
    · next n rest hnumeral =>
      split
      · next e he =>
        rintro _ ⟨⟩
        exact ⟨cs, List.suffix_rfl, standsAt_of_longInteger hnumeral he, rfl⟩
      · exact .ok

section

variable {α : Type} {close : Char} {inner : List Char → Except Stop (Reading (List α))}

theorem stops_bracketed (h : ∀ cs, Unblanked cs → Stops cs (inner cs)) (cs : List Char) :
    Stops cs (bracketed close inner cs) := by
  unfold bracketed
  split
  · exact .mono List.nil_suffix (h [] unblanked_nil)
  · next c rest hcs =>
    split
    · exact .ok
    · exact .mono (hcs ▸ skipBlanks_suffix cs) (h _ (unblanked_of_skipBlanks hcs))

theorem stops_listed {item : α} (hleaves : ∀ cs, Leaves cs (inner cs))
    (h : ∀ cs, Unblanked cs → Stops cs (inner cs)) (cs : List Char) :
    Stops cs (listed close item inner cs) := by
  unfold listed
  split
  · exact .mono List.nil_suffix (.stopAt unblanked_nil)
  · next c rest hcs =>
    have hrest := suffix_of_skipBlanks hcs
    split
    · exact .ok
    · split
      · exact .mono ((skipBlanks_suffix rest).trans hrest)
          (.bind (hleaves _) (h _ (unblanked_skipBlanks rest)) fun _ _ => .ok)
      · exact .mono (hcs ▸ skipBlanks_suffix cs) (.stopAt (unblanked_of_skipBlanks hcs))

theorem stops_afterColon {inner : List Char → Except Stop (Reading α)}
    (h : ∀ cs, Unblanked cs → Stops cs (inner cs)) (cs : List Char) :
    Stops cs (afterColon inner cs) := by
  unfold afterColon
  split
  · exact .mono List.nil_suffix (.stopAt unblanked_nil)
  · next c rest hcs =>
    split
    · exact .mono ((skipBlanks_suffix rest).trans (suffix_of_skipBlanks hcs))
        (h _ (unblanked_skipBlanks rest))
    · exact .mono (hcs ▸ skipBlanks_suffix cs) (.stopAt (unblanked_of_skipBlanks hcs))

end

/-- A value that is an integer with too many digits ends the reading where it starts. -/
theorem value_of_longInteger {depth : Nat} {d : Char} {ds rest : List Char}
    (hd : d.isDigit = true) (hzero : d ≠ '0') (hds : ∀ c ∈ ds, c.isDigit = true)
    (hlong : Text.maxDigits < (d :: ds).length) (hrest : ∀ c ∈ rest.head?, c.isDigit = false)
    (hfraction : (fraction rest).1 = []) (hexponent : (exponent rest).1 = []) :
    value (depth + 1) (d :: ds ++ rest) =
      .error ⟨.longInteger ⟨(d :: ds).length⟩, (d :: ds ++ rest).length⟩ := by
  have hother (c : Char) (hc : c.isDigit = false) : d ≠ c := by
    rintro rfl
    rw [hd] at hc
    cases hc
  have hall : ∀ c ∈ d :: ds, c.isDigit = true := List.forall_mem_cons.mpr ⟨hd, hds⟩
  have hinteger : integer? (d :: ds ++ rest) = some (d :: ds, rest) := by
    have hminus : d ≠ '-' := hother '-' rfl
    have hread := digits_append hall hrest
    rw [List.cons_append] at hread ⊢
    simp [integer?, natural?, hminus, hd, hread]
  have hnumeral : numeral? (d :: ds ++ rest) = some (⟨d :: ds, [], []⟩, (exponent rest).2) := by
    rw [numeral?_eq_some_iff]
    refine ⟨_, _, hinteger, ?_, ?_⟩
    · rw [fraction_of_nil hfraction, hfraction, hexponent]
    · rw [fraction_of_nil hfraction]
  have hword : word? (d :: ds ++ rest) = none := by
    rw [word?, List.findSome?_eq_none_iff]
    intro entry hentry
    have hfirst : ∀ entry ∈ words, entry.1.toList.head?.any (!Char.isDigit ·) = true := by decide
    obtain ⟨c, hmem, hc⟩ := (Option.any_eq_true _ _).mp (hfirst entry hentry)
    obtain ⟨tail, hword⟩ := List.head?_eq_some_iff.mp hmem
    dsimp only
    rw [hword]
    simp [afterWord?, (hother c (by simpa using hc)).symm]
  have hcount : (⟨d :: ds, [], []⟩ : Numeral).longInteger? = some ⟨(d :: ds).length⟩ := by
    rw [Numeral.longInteger?, if_pos ⟨rfl, rfl⟩, List.filter_eq_self.mpr hall, Text.longInteger?,
      if_pos hlong]
  rw [List.cons_append, value_of_ne (hother '"' rfl) (hother '[' rfl) (hother '{' rfl),
    ← List.cons_append, scalar, hword, hnumeral]
  dsimp only
  rw [hcount]

/-- A reading that starts behind blanks stops at an end of what it was given. -/
theorem stops_values (depth : Nat) :
    (∀ cs, Unblanked cs → Stops cs (value depth cs)) ∧
    (∀ cs, Unblanked cs → Stops cs (items depth cs)) ∧
    (∀ cs, Unblanked cs → Stops cs (fields depth cs)) := by
  induction depth with
  | zero => exact ⟨fun _ h => .stopAt h, fun _ h => .stopAt h, fun _ h => .stopAt h⟩
  | succ depth ih =>
    obtain ⟨hvalue, hitems, hfields⟩ := ih
    obtain ⟨lvalue, litems, lfields⟩ := leaves_values depth
    refine ⟨fun cs h => ?value, fun cs h => ?items, fun cs h => ?fields⟩
    case value =>
      rw [value.eq_def]
      dsimp only
      split
      · next rest =>
        exact .bind (.mono (List.suffix_cons _ rest) (leaves_stringAfterQuote rest))
          (stops_stringAfterQuote rest) fun _ _ => .ok
      · next rest =>
        exact .mono (List.suffix_cons _ rest)
          (.bind (leaves_bracketed litems) (stops_bracketed hitems rest) fun _ _ => .ok)
      · next rest =>
        exact .mono (List.suffix_cons _ rest)
          (.bind (leaves_bracketed lfields) (stops_bracketed hfields rest) fun _ _ => .ok)
      · exact stops_scalar h
    case items =>
      rw [items]
      exact .bind (lvalue cs) (hvalue cs h) fun _ rest => stops_listed litems hitems rest
    case fields =>
      rw [fields.eq_def]
      dsimp only
      split
      · next rest =>
        refine .bind (.mono (List.suffix_cons _ rest) (leaves_stringAfterQuote rest))
          (stops_stringAfterQuote rest) fun name after => ?_
        exact .bind (leaves_afterColon lvalue) (stops_afterColon hvalue after)
          fun _ more => stops_listed lfields hfields more
      · exact .stopAt h

/-! ## Texts -/

theorem standsAt_of_document {cs : List Char} {stop : Stop} (h : document cs = .error stop) :
    ∃ after, after <:+ cs ∧ stop.fault.StandsAt after ∧ stop.remaining = after.length := by
  unfold document at h
  split at h
  · next hmark =>
    cases h
    exact ⟨cs, List.suffix_rfl, hmark, rfl⟩
  · have hblanks := skipBlanks_suffix cs
    have hstops := (stops_values (2 * cs.length + 2)).1 (skipBlanks cs) (unblanked_skipBlanks cs)
    have hleaves := (leaves_values (2 * cs.length + 2)).1 (skipBlanks cs)
    cases hread : value (2 * cs.length + 2) (skipBlanks cs) with
    | error stop' =>
      rw [hread] at h
      cases h
      obtain ⟨after, hsuffix, hstop⟩ := hstops stop hread
      exact ⟨after, hsuffix.trans hblanks, hstop⟩
    | ok found =>
      obtain ⟨v, rest⟩ := found
      simp only [hread, bind, Except.bind, pure, Except.pure] at h
      split at h
      · cases h
      · next hne =>
        cases h
        have hrest := (hleaves v rest hread).trans hblanks
        exact ⟨skipBlanks rest, (skipBlanks_suffix rest).trans hrest,
          ⟨hne, unblanked_skipBlanks rest⟩, rfl⟩

/-- A text that is not JSON is refused at an offset of it, where the fault stands. -/
theorem standsAt_of_decode {source : String} {e : DecodeError} (h : decode source = .error e) :
    e.offset ≤ source.toList.length ∧ e.fault.StandsAt (source.toList.drop e.offset) := by
  unfold decode at h
  dsimp only at h
  split at h
  · cases h
  · next stop hdocument =>
    cases h
    obtain ⟨after, hsuffix, hfault, hremaining⟩ := standsAt_of_document hdocument
    refine ⟨Nat.sub_le _ _, ?_⟩
    dsimp only
    rw [hremaining, ← List.suffix_iff_eq_drop.mp hsuffix]
    exact hfault

theorem skipBlanks_digits {d : Char} {ds : List Char} (hd : d.isDigit = true) :
    skipBlanks (d :: ds) = d :: ds := by
  refine List.dropWhile_cons_of_neg fun hblank => ?_
  simp only [isBlank, Bool.or_eq_true, decide_eq_true_eq] at hblank
  rcases hblank with ((rfl | rfl) | rfl) | rfl <;> cases hd

/-- A fault of a text can be computed, since values need not be compared for it. -/
theorem decode_of_fault {source : String} {e : DecodeError}
    (h : (decode source).map (fun _ => ()) = .error e) : decode source = .error e := by
  cases hdecode : decode source with
  | error =>
    rw [hdecode] at h
    cases h
    rfl
  | ok =>
    rw [hdecode] at h
    cases h

/-- A text ends as the reading of its value does, unless it starts with a byte order mark or a
blank. -/
theorem decode_of_value_error {cs : List Char} {stop : Stop} (hmark : cs.head? ≠ some '\ufeff')
    (hblanks : skipBlanks cs = cs) (h : value (2 * cs.length + 2) cs = .error stop) :
    decode (String.ofList cs) = .error ⟨stop.fault, cs.length - stop.remaining⟩ := by
  have hdocument : document cs = .error stop := by
    unfold document
    rw [if_neg hmark, hblanks, h]
    rfl
  unfold decode
  simp only [String.toList_ofList, hdocument]

section

variable {d : Char} {ds : List Char}

theorem ne_byteOrderMark (hd : d.isDigit = true) : d ≠ '\ufeff' := by
  rintro rfl
  cases hd

/-- A text that is nothing but an integer with too many digits. -/
theorem decode_of_longInteger (hd : d.isDigit = true) (hzero : d ≠ '0')
    (hds : ∀ c ∈ ds, c.isDigit = true) (hlong : Text.maxDigits < (d :: ds).length) :
    decode (String.ofList (d :: ds)) = .error ⟨.longInteger ⟨(d :: ds).length⟩, 0⟩ := by
  have hvalue : value (2 * (d :: ds).length + 2) (d :: ds ++ []) = .error
      ⟨.longInteger ⟨(d :: ds).length⟩, (d :: ds ++ []).length⟩ :=
    value_of_longInteger hd hzero hds hlong (by simp) rfl rfl
  rw [List.append_nil] at hvalue
  rw [decode_of_value_error (by simpa using ne_byteOrderMark hd) (skipBlanks_digits hd) hvalue,
    Nat.sub_self]

/-- A list that is left open behind an integer with too many digits, which is no JSON. -/
theorem decode_of_open_longInteger (hd : d.isDigit = true) (hzero : d ≠ '0')
    (hds : ∀ c ∈ ds, c.isDigit = true) (hlong : Text.maxDigits < (d :: ds).length) :
    decode (String.ofList ('[' :: d :: ds)) = .error ⟨.longInteger ⟨(d :: ds).length⟩, 1⟩ := by
  have hclose : d ≠ ']' := by
    rintro rfl
    cases hd
  have hitem : value (2 * (d :: ds).length + 2) (d :: ds ++ []) = .error
      ⟨.longInteger ⟨(d :: ds).length⟩, (d :: ds ++ []).length⟩ :=
    value_of_longInteger hd hzero hds hlong (by simp) rfl rfl
  rw [List.append_nil] at hitem
  have hvalue : value (2 * ('[' :: d :: ds).length + 2) ('[' :: d :: ds) =
      .error ⟨.longInteger ⟨(d :: ds).length⟩, (d :: ds).length⟩ := by
    rw [value, bracketed, skipBlanks_digits hd]
    dsimp only
    rw [if_neg hclose, List.length_cons (a := '['), Nat.mul_add, items, hitem]
    rfl
  rw [decode_of_value_error (by simp) rfl hvalue, List.length_cons (a := '['),
    Nat.add_sub_cancel_left]

end

end FlexSynth.Json
