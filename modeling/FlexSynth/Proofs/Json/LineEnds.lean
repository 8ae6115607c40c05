import FlexSynth.Proofs.Json.Depth
import FlexSynth.Proofs.Text.Utf8

/-!
# Line ends in a JSON text

A text means the same after its line ends have been unified (`decode_unifyNewlines`): it
decodes to the same value, or it has the same fault, though the fault may stand elsewhere. A
carriage return and a newline are both blank, and neither may stand in a string, a word or a
number. So no reading ends between the two, and what a reading leaves has its line ends
unified too (`Unified`).
-/

namespace FlexSynth.Json

open Text

/-! ## Blanks -/

theorem skipBlanks_unifyNewlines (cs : List Char) :
    skipBlanks (unifyNewlines cs) = unifyNewlines (skipBlanks cs) := by
  unfold skipBlanks
  fun_induction unifyNewlines cs with
  | case1 rest ih => simpa [isBlank] using ih
  | case2 rest _ ih => simpa [isBlank] using ih
  | case3 c rest _ hc ih =>
    cases hblank : isBlank c with
    | true => simp [hblank, ih]
    | false => simp [hblank, unifyNewlines_cons fun h => hc h]
  | case4 => rfl

/-- What comes after blanks is no carriage return. -/
theorem skipBlanks_cases (cs : List Char) :
    skipBlanks cs = [] ∧ skipBlanks (unifyNewlines cs) = [] ∨
    ∃ c rest, c ≠ '\r' ∧ skipBlanks cs = c :: rest ∧
      skipBlanks (unifyNewlines cs) = c :: unifyNewlines rest := by
  rw [skipBlanks_unifyNewlines]
  cases h : skipBlanks cs with
  | nil => exact .inl ⟨rfl, rfl⟩
  | cons c rest =>
    have hc : c ≠ '\r' := by
      rintro rfl
      have hhead := List.head?_dropWhile_not isBlank cs
      rw [show cs.dropWhile isBlank = '\r' :: rest from h] at hhead
      simp [isBlank] at hhead
    exact .inr ⟨c, rest, hc, rfl, unifyNewlines_cons hc⟩

/-! ## Words and numbers -/

section

variable {α : Type} {cs rest : List Char}

/-- A reading with the line ends of its rest unified. -/
def unifyRest (r : Reading α) : Reading α :=
  (r.1, unifyNewlines r.2)

theorem afterWord?_unifyNewlines {word : List Char} (hr : '\r' ∉ word) (hn : '\n' ∉ word)
    (cs : List Char) :
    afterWord? word (unifyNewlines cs) = (afterWord? word cs).map unifyNewlines := by
  unfold afterWord?
  induction word generalizing cs with
  | nil => rfl
  | cons w word ih =>
    rw [List.mem_cons, not_or] at hr hn
    obtain ⟨hwr, hr⟩ := hr
    obtain ⟨hwn, hn⟩ := hn
    rcases unifyNewlines_cases cs with rfl | ⟨c, rest, hc, rfl, hunified⟩ |
      ⟨rest, more, rfl, hunified⟩
    · rfl
    · rw [hunified]
      by_cases hw : w = c
      · subst hw
        simpa using ih hr hn rest
      · simp [hw]
    · rw [hunified]
      simp [Ne.symm hwr, Ne.symm hwn]

/-- No word holds a line end. -/
theorem word?_unifyNewlines (cs : List Char) :
    word? (unifyNewlines cs) = (word? cs).map unifyRest := by
  have hwords : ∀ entry ∈ words, '\r' ∉ entry.1.toList ∧ '\n' ∉ entry.1.toList := by decide
  unfold word?
  generalize words = entries at hwords
  induction entries with
  | nil => rfl
  | cons entry entries ih =>
    obtain ⟨hr, hn⟩ := hwords entry List.mem_cons_self
    rw [List.findSome?_cons, List.findSome?_cons,
      ih fun other hother => hwords other (List.mem_cons_of_mem entry hother)]
    dsimp only
    rw [afterWord?_unifyNewlines hr hn]
    cases afterWord? entry.1.toList cs <;> rfl

theorem digits_unifyNewlines (cs : List Char) :
    digits (unifyNewlines cs) = unifyRest (digits cs) := by
  obtain ⟨htake, hdrop⟩ := takeWhile_unifyNewlines (p := Char.isDigit) (by decide) (by decide) cs
  exact Prod.ext htake hdrop

theorem natural?_unifyNewlines (cs : List Char) :
    natural? (unifyNewlines cs) = (natural? cs).map unifyRest := by
  rcases unifyNewlines_cases cs with rfl | ⟨c, rest, hc, rfl, hunified⟩ | ⟨rest, more, rfl, hunified⟩
  · rfl
  · by_cases hzero : c = '0'
    · subst hzero
      rw [hunified]
      rfl
    · have hdigits := digits_unifyNewlines (c :: rest)
      rw [hunified] at hdigits ⊢
      simp only [natural?, hdigits]
      split <;> rfl
  · rw [hunified]
    rfl

theorem integer?_unifyNewlines (cs : List Char) :
    integer? (unifyNewlines cs) = (integer? cs).map unifyRest := by
  rcases unifyNewlines_cases cs with rfl | ⟨c, rest, hc, rfl, hunified⟩ | ⟨rest, more, rfl, hunified⟩
  · rfl
  · by_cases hsign : c = '-'
    · subst hsign
      rw [hunified]
      simp only [integer?, natural?_unifyNewlines]
      cases natural? rest <;> rfl
    · have hnatural := natural?_unifyNewlines (c :: rest)
      rw [hunified] at hnatural ⊢
      simp [integer?, hsign, hnatural]
  · rw [hunified]
    rfl

theorem fraction_unifyNewlines (cs : List Char) :
    fraction (unifyNewlines cs) = unifyRest (fraction cs) := by
  rcases unifyNewlines_cases cs with rfl | ⟨c, rest, hc, rfl, hunified⟩ | ⟨rest, more, rfl, hunified⟩
  · rfl
  · by_cases hpoint : c = '.'
    · subst hpoint
      rw [hunified]
      simp only [fraction, digits_unifyNewlines]
      cases hdigits : digits rest with
      | mk ds after => cases ds <;> simp [unifyRest, hunified]
    · rw [hunified]
      simp [fraction, unifyRest, hpoint, hunified]
  · rw [hunified]
    simp [fraction, unifyRest, hunified]

theorem sign_unifyNewlines (cs : List Char) :
    sign (unifyNewlines cs) = unifyRest (sign cs) := by
  rcases unifyNewlines_cases cs with rfl | ⟨c, rest, hc, rfl, hunified⟩ | ⟨rest, more, rfl, hunified⟩
  · rfl
  · rw [hunified]
    unfold sign
    split <;> simp_all [unifyRest]
  · rw [hunified]
    simp [sign, unifyRest, hunified]

theorem exponent_unifyNewlines (cs : List Char) :
    exponent (unifyNewlines cs) = unifyRest (exponent cs) := by
  rcases unifyNewlines_cases cs with rfl | ⟨c, rest, hc, rfl, hunified⟩ | ⟨rest, more, rfl, hunified⟩
  · rfl
  · rw [hunified]
    simp only [exponent, sign_unifyNewlines]
    split
    · simp only [unifyRest, digits_unifyNewlines]
      cases hdigits : digits (sign rest).2 with
      | mk ds after => cases ds <;> simp [hunified]
    · simp [unifyRest, hunified]
  · rw [hunified]
    simp [exponent, unifyRest, hunified]

theorem numeral?_unifyNewlines (cs : List Char) :
    numeral? (unifyNewlines cs) = (numeral? cs).map unifyRest := by
  unfold numeral?
  rw [integer?_unifyNewlines]
  cases integer? cs with
  | none => rfl
  | some found =>
    obtain ⟨whole, after⟩ := found
    simp [unifyRest, fraction_unifyNewlines, exponent_unifyNewlines]

end

/-! ## Readings -/

/-- The second reading is the first one of a text whose line ends have been unified: it has the
same result and leaves the same rest with its line ends unified, or it stops with the same
fault. -/
inductive Unified {α : Type} : Except Stop (Reading α) → Except Stop (Reading α) → Prop
  | read (a : α) (rest : List Char) : Unified (.ok (a, rest)) (.ok (a, unifyNewlines rest))
  | stopped (fault : Fault) (m n : Nat) :
      Unified (.error ⟨fault, m⟩) (.error ⟨fault, n⟩)

section

variable {α β : Type} {cs : List Char}

theorem Unified.bind {x y : Except Stop (Reading α)} {f g : Reading α → Except Stop (Reading β)}
    (hx : Unified x y) (hf : ∀ a rest, Unified (f (a, rest)) (g (a, unifyNewlines rest))) :
    Unified (x >>= f) (y >>= g) := by
  cases hx with
  | read a rest => exact hf a rest
  | stopped fault m n => exact .stopped fault m n

theorem Unified.stopAt (fault : SyntaxFault) (cs cs' : List Char) :
    Unified (stopAt fault cs : Except Stop (Reading α)) (stopAt fault cs') :=
  .stopped (.malformed fault) _ _

theorem Unified.found {r : Reading α} : Unified (.ok r) (.ok (unifyRest r)) :=
  .read r.1 r.2

theorem unified_scalar (cs : List Char) : Unified (scalar cs) (scalar (unifyNewlines cs)) := by
  unfold scalar
  rw [word?_unifyNewlines, numeral?_unifyNewlines]
  cases word? cs with
  | some found => exact .found
  | none => cases numeral? cs with
    | none => exact .stopAt _ _ _
    | some found =>
      obtain ⟨n, rest⟩ := found
      dsimp only [Option.map, unifyRest]
      cases n.longInteger? with
      | some e => exact .stopped _ _ _
      | none => exact .read _ rest

/-! ### Strings -/

/-- The number of a hexadecimal escape and what follows it, which must be something; `count`
digits are still to come. -/
def hexEscape? : (count n : Nat) → List Char → Option (Nat × List Char)
  | 0, _, [] => none
  | 0, n, c :: rest => some (n, c :: rest)
  | _ + 1, _, [] => none
  | count + 1, n, c :: rest => (hexValue? c).bind fun v => hexEscape? count (16 * n + v) rest

theorem hexEscape?_unifyNewlines (count n : Nat) (cs : List Char) :
    hexEscape? count n (unifyNewlines cs) = (hexEscape? count n cs).map unifyRest := by
  induction count generalizing n cs with
  | zero =>
    rcases unifyNewlines_cases cs with rfl | ⟨c, rest, hc, rfl, hunified⟩ |
      ⟨rest, more, rfl, hunified⟩
    · rfl
    · rw [hunified]
      simp [hexEscape?, unifyRest, hunified]
    · rw [hunified]
      simp [hexEscape?, unifyRest, hunified]
  | succ count ih =>
    rcases unifyNewlines_cases cs with rfl | ⟨c, rest, hc, rfl, hunified⟩ |
      ⟨rest, more, rfl, hunified⟩
    · rfl
    · rw [hunified]
      simp only [hexEscape?, ih]
      cases hexValue? c <;> rfl
    · rw [hunified]
      rfl

theorem hexEscape?_five (a b c d e : Char) (rest : List Char) :
    hexEscape? 4 0 (a :: b :: c :: d :: e :: rest) =
      (hexNumber? [a, b, c, d]).map (·, e :: rest) := by
  simp only [hexEscape?, hexNumber?, List.foldlM_cons, List.foldlM_nil]
  cases hexValue? a <;> cases hexValue? b <;> cases hexValue? c <;> cases hexValue? d <;> rfl

theorem hexEscape?_short (h : ∀ a b c d e rest, cs = a :: b :: c :: d :: e :: rest → False) :
    hexEscape? 4 0 cs = none := by
  match cs with
  | [] | [_] | [_, _] | [_, _, _] => simp [hexEscape?]
  | [a, b, c, d] => simp [hexEscape?]
  | a :: b :: c :: d :: e :: rest => exact (h a b c d e rest rfl).elim

/-- A hexadecimal escape in a string. -/
theorem stringBody_hex (opened : Nat) (cs : List Char) :
    stringBody opened ('\\' :: 'u' :: cs) = match hexEscape? 4 0 cs with
      | some (n, rest) => do
        let (ns, rest) ← stringBody opened rest
        return (n :: ns, rest)
      | none => stopAt .badHexEscape ('u' :: cs) := by
  by_cases h : ∃ a b c d e rest, cs = a :: b :: c :: d :: e :: rest
  · obtain ⟨a, b, c, d, e, rest, rfl⟩ := h
    rw [hexEscape?_five, stringBody]
    cases hexNumber? [a, b, c, d] <;> rfl
  · have hshort : ∀ a b c d e rest, cs = a :: b :: c :: d :: e :: rest → False :=
      fun a b c d e rest hcs => h ⟨a, b, c, d, e, rest, hcs⟩
    rw [hexEscape?_short hshort, stringBody]
    exact hshort

/-- An escape in a string that is not hexadecimal. -/
theorem stringBody_escape {letter : Char} (hu : letter ≠ 'u') (opened : Nat) (cs : List Char) :
    stringBody opened ('\\' :: letter :: cs) = match unescape? letter with
      | some c => do
        let (ns, rest) ← stringBody opened cs
        return (c.toNat :: ns, rest)
      | none => stopAt .badEscape ('\\' :: letter :: cs) := by
  cases hc : unescape? letter <;> simp [stringBody, hu, hc]

/-- Any other character in a string. -/
theorem stringBody_plain {c : Char} (hquote : c ≠ '"') (hescape : c ≠ '\\') (opened : Nat)
    (cs : List Char) :
    stringBody opened (c :: cs) =
      if c.toNat < 0x20 then stopAt .controlCharacter (c :: cs)
      else do
        let (ns, rest) ← stringBody opened cs
        return (c.toNat :: ns, rest) := by
  rw [stringBody]
  all_goals simp_all

theorem ne_backslash {c : Char} {rest : List Char} (hend : c = '\\' → rest = [] → False)
    (hescape : ∀ letter more, c = '\\' → rest = letter :: more → False) : c ≠ '\\' := by
  intro hc
  cases rest with
  | nil => exact hend hc rfl
  | cons letter more => exact hescape letter more hc rfl

/-- A string holds no line end: it stops at both kinds with the same fault. -/
theorem unified_stringBody (opened opened' : Nat) (cs : List Char) :
    Unified (stringBody opened cs) (stringBody opened' (unifyNewlines cs)) := by
  have hcons {n : Nat} {x y : Except Stop (Reading (List Nat))} (h : Unified x y) :
      Unified (do let (ns, rest) ← x; return (n :: ns, rest))
        (do let (ns, rest) ← y; return (n :: ns, rest)) :=
    h.bind fun _ rest => .read _ rest
  fun_induction stringBody opened cs with
  | case1 => exact .stopped _ _ _
  | case2 rest =>
    rw [unifyNewlines_cons (by decide)]
    exact .read _ rest
  | case3 => exact .stopped _ _ _
  | case4 a b c d e rest n hn ih =>
    rw [unifyNewlines_cons (by decide), unifyNewlines_cons (by decide), stringBody_hex,
      hexEscape?_unifyNewlines, hexEscape?_five, hn]
    exact hcons ih
  | case5 a b c d e rest hn =>
    rw [unifyNewlines_cons (by decide), unifyNewlines_cons (by decide), stringBody_hex,
      hexEscape?_unifyNewlines, hexEscape?_five, hn]
    exact .stopAt _ _ _
  | case6 rest hshort =>
    rw [unifyNewlines_cons (by decide), unifyNewlines_cons (by decide), stringBody_hex,
      hexEscape?_unifyNewlines, hexEscape?_short hshort]
    exact .stopAt _ _ _
  | case7 letter rest _ hu c hc ih =>
    have hletter : letter ≠ '\r' := by
      rintro rfl
      cases hc
    rw [unifyNewlines_cons (by decide), unifyNewlines_cons hletter, stringBody_escape hu, hc]
    exact hcons ih
  | case8 letter rest _ hu hc =>
    rw [unifyNewlines_cons (by decide)]
    rcases unifyNewlines_cases (letter :: rest) with h | ⟨_, _, _, h, hunified⟩ |
      ⟨_, more, h, hunified⟩
    · cases h
    · cases h
      rw [hunified, stringBody_escape hu, hc]
      exact .stopAt _ _ _
    · rw [hunified, stringBody_escape (by decide)]
      exact .stopAt _ _ _
  | case9 c rest hquote hend _ _ hescape hcontrol =>
    have hbackslash : c ≠ '\\' := ne_backslash hend hescape
    rcases unifyNewlines_cases (c :: rest) with h | ⟨_, _, _, h, hunified⟩ | ⟨_, more, h, hunified⟩
    · cases h
    · cases h
      rw [hunified, stringBody_plain hquote hbackslash, if_pos hcontrol]
      exact .stopAt _ _ _
    · rw [hunified, stringBody_plain (by decide) (by decide), if_pos (by decide)]
      exact .stopAt _ _ _
  | case10 c rest hquote hend _ _ hescape hcontrol ih =>
    have hbackslash : c ≠ '\\' := ne_backslash hend hescape
    have hc : c ≠ '\r' := by
      rintro rfl
      exact hcontrol (by decide)
    rw [unifyNewlines_cons hc, stringBody_plain hquote hbackslash, if_neg hcontrol]
    exact hcons ih

theorem unified_stringAfterQuote (cs : List Char) :
    Unified (stringAfterQuote cs) (stringAfterQuote (unifyNewlines cs)) :=
  (unified_stringBody _ _ cs).bind fun _ rest => .read _ rest

/-! ### Values -/

theorem unified_bracketed {close : Char} {f g : List Char → Except Stop (Reading (List α))}
    (h : ∀ cs, Unified (f cs) (g (unifyNewlines cs))) :
    Unified (bracketed close f cs) (bracketed close g (unifyNewlines cs)) := by
  unfold bracketed
  rcases skipBlanks_cases cs with ⟨hcs, hunified⟩ | ⟨c, rest, hc, hcs, hunified⟩
  · rw [hcs, hunified]
    exact h []
  · rw [hcs, hunified]
    dsimp only
    split
    · exact .read _ _
    · rw [← unifyNewlines_cons hc]
      exact h _

theorem unified_listed {close : Char} {item : α} {f g : List Char → Except Stop (Reading (List α))}
    (h : ∀ cs, Unified (f cs) (g (unifyNewlines cs))) :
    Unified (listed close item f cs) (listed close item g (unifyNewlines cs)) := by
  unfold listed
  rcases skipBlanks_cases cs with ⟨hcs, hunified⟩ | ⟨c, rest, hc, hcs, hunified⟩
  · rw [hcs, hunified]
    exact .stopAt _ _ _
  · rw [hcs, hunified]
    dsimp only
    split
    · exact .read _ _
    · split
      · rw [skipBlanks_unifyNewlines]
        exact (h _).bind fun others more => .read _ more
      · exact .stopAt _ _ _

theorem unified_afterColon {f g : List Char → Except Stop (Reading α)}
    (h : ∀ cs, Unified (f cs) (g (unifyNewlines cs))) :
    Unified (afterColon f cs) (afterColon g (unifyNewlines cs)) := by
  unfold afterColon
  rcases skipBlanks_cases cs with ⟨hcs, hunified⟩ | ⟨c, rest, hc, hcs, hunified⟩
  · rw [hcs, hunified]
    exact .stopAt _ _ _
  · rw [hcs, hunified]
    dsimp only
    split
    · rw [skipBlanks_unifyNewlines]
      exact h _
    · exact .stopAt _ _ _

end

theorem fields_of_ne {c : Char} {depth : Nat} {rest : List Char} (hquote : c ≠ '"') :
    fields (depth + 1) (c :: rest) = stopAt .missingName (c :: rest) := by
  rw [fields.eq_def]
  dsimp only
  split <;> simp_all

theorem unified_values (depth : Nat) :
    (∀ cs, Unified (value depth cs) (value depth (unifyNewlines cs))) ∧
    (∀ cs, Unified (items depth cs) (items depth (unifyNewlines cs))) ∧
    (∀ cs, Unified (fields depth cs) (fields depth (unifyNewlines cs))) := by
  induction depth with
  | zero => exact ⟨fun _ => .stopAt _ _ _, fun _ => .stopAt _ _ _, fun _ => .stopAt _ _ _⟩
  | succ depth ih =>
    obtain ⟨hvalue, hitems, hfields⟩ := ih
    refine ⟨fun cs => ?value, fun cs => ?items, fun cs => ?fields⟩
    case value =>
      have hscalar := unified_scalar cs
      rcases unifyNewlines_cases cs with rfl | ⟨c, rest, hc, rfl, hunified⟩ |
        ⟨rest, more, rfl, hunified⟩
      · exact hscalar
      · rw [hunified] at hscalar ⊢
        by_cases hquote : c = '"'
        · subst hquote
          exact (unified_stringAfterQuote rest).bind fun _ more => .read _ more
        by_cases hbracket : c = '['
        · subst hbracket
          exact (unified_bracketed hitems).bind fun _ more => .read _ more
        by_cases hbrace : c = '{'
        · subst hbrace
          exact (unified_bracketed hfields).bind fun _ more => .read _ more
        rw [value_of_ne hquote hbracket hbrace, value_of_ne hquote hbracket hbrace]
        exact hscalar
      · rw [hunified] at hscalar ⊢
        exact hscalar
    case items =>
      rw [items, items]
      exact (hvalue cs).bind fun item rest => unified_listed hitems
    case fields =>
      rcases unifyNewlines_cases cs with rfl | ⟨c, rest, hc, rfl, hunified⟩ |
        ⟨rest, more, rfl, hunified⟩
      · exact .stopAt _ _ _
      · rw [hunified]
        by_cases hquote : c = '"'
        · subst hquote
          refine (unified_stringAfterQuote rest).bind fun name after => ?_
          exact (unified_afterColon hvalue).bind fun item more => unified_listed hfields
        · rw [fields_of_ne hquote, fields_of_ne hquote]
          exact .stopAt _ _ _
      · rw [hunified]
        exact .stopAt _ _ _

/-! ## Texts -/

/-- The first character is a mark of byte order, or it is not. -/
theorem head?_unifyNewlines (cs : List Char) :
    (unifyNewlines cs).head? = some '\ufeff' ↔ cs.head? = some '\ufeff' := by
  rcases unifyNewlines_cases cs with rfl | ⟨c, rest, _, rfl, hunified⟩ | ⟨rest, more, rfl, hunified⟩
  · rfl
  · rw [hunified]
    rfl
  · rw [hunified]
    exact iff_of_false (by simp) (by simp)

theorem document_unifyNewlines (cs : List Char) :
    (document (unifyNewlines cs)).mapError Stop.fault = (document cs).mapError Stop.fault := by
  unfold document
  rw [skipBlanks_unifyNewlines]
  by_cases hmark : cs.head? = some '\ufeff'
  · rw [if_pos hmark, if_pos ((head?_unifyNewlines cs).mpr hmark)]
    rfl
  · rw [if_neg hmark, if_neg (mt (head?_unifyNewlines cs).mp hmark)]
    have hlength : (unifyNewlines (skipBlanks cs)).length ≤ (unifyNewlines cs).length := by
      rw [← skipBlanks_unifyNewlines]
      exact length_skipBlanks _
    have hshorter := length_unifyNewlines cs
    have hdepth : value (2 * cs.length + 2) (unifyNewlines (skipBlanks cs)) =
        value (2 * (unifyNewlines cs).length + 2) (unifyNewlines (skipBlanks cs)) :=
      value_depth (by omega) (by omega)
    have hvalue := (unified_values (2 * cs.length + 2)).1 (skipBlanks cs)
    rw [hdepth] at hvalue
    generalize value (2 * cs.length + 2) (skipBlanks cs) = x at hvalue ⊢
    generalize value (2 * (unifyNewlines cs).length + 2) (unifyNewlines (skipBlanks cs)) = y
      at hvalue ⊢
    cases hvalue with
    | stopped fault m n => rfl
    | read v rest =>
      dsimp only [bind, Except.bind, pure, Except.pure]
      rcases skipBlanks_cases rest with ⟨hrest, hunified⟩ | ⟨c, more, _, hrest, hunified⟩
      · rw [hrest, hunified]
      · rw [hrest, hunified]
        rfl

/-- A text and the same text with its line ends unified decode to the same value, or have the
same fault. -/
theorem decode_unifyNewlines (source : String) :
    (decode (String.ofList (unifyNewlines source.toList))).mapError DecodeError.fault =
      (decode source).mapError DecodeError.fault := by
  have hdocument := document_unifyNewlines source.toList
  unfold decode
  rw [String.toList_ofList]
  dsimp only
  generalize document source.toList = x at hdocument ⊢
  generalize document (unifyNewlines source.toList) = y at hdocument ⊢
  cases x with
  | ok v =>
    cases y with
    | ok v' => exact hdocument
    | error stop' => cases hdocument
  | error stop =>
    cases y with
    | ok v' => cases hdocument
    | error stop' => exact congrArg Except.error (Except.error.inj hdocument)

end FlexSynth.Json
