import FlexSynth.Json.Decode

/-!
# The depth of the recursion

The reader of JSON bounds its recursion by a count. The count is never used up: any two counts
that are large enough for the characters that are left give the same reading (`value_depth`),
because a value opens no item without a character of its own, and what a reading leaves is the
end of what it was given (`leaves_values`).
-/

namespace FlexSynth.Json

/-! ## Characters that are left -/

/-- A reading that succeeds leaves an end of these characters. -/
def Leaves {α : Type} (cs : List Char) (x : Except Stop (Reading α)) : Prop :=
  ∀ a rest, x = .ok (a, rest) → rest <:+ cs

namespace Leaves

variable {α β : Type} {cs ds : List Char} {x : Except Stop (Reading α)}
  {f : Reading α → Except Stop (Reading β)}

theorem ok {a : α} {rest : List Char} (h : rest <:+ cs) :
    Leaves cs (.ok (a, rest) : Except Stop (Reading α)) := by
  rintro _ _ ⟨⟩
  exact h

theorem found {a : α} : Leaves cs (.ok (a, cs) : Except Stop (Reading α)) :=
  ok List.suffix_rfl

theorem error {stop : Stop} : Leaves cs (.error stop : Except Stop (Reading α)) := by
  rintro _ _ ⟨⟩

theorem stopAt {fault : SyntaxFault} :
    Leaves cs (stopAt fault ds : Except Stop (Reading α)) :=
  error

theorem mono (h : ds <:+ cs) (hx : Leaves ds x) : Leaves cs x :=
  fun a rest hread => (hx a rest hread).trans h

theorem bind (hx : Leaves cs x) (hf : ∀ a rest, Leaves rest (f (a, rest))) :
    Leaves cs (x >>= f) := by
  cases x with
  | error stop => exact error
  | ok found => exact .mono (hx found.1 found.2 rfl) (hf found.1 found.2)

end Leaves

theorem skipBlanks_suffix (cs : List Char) : skipBlanks cs <:+ cs :=
  List.dropWhile_suffix isBlank

theorem length_skipBlanks (cs : List Char) : (skipBlanks cs).length ≤ cs.length :=
  (skipBlanks_suffix cs).length_le

/-- What comes after the blanks and one more character. -/
theorem suffix_of_skipBlanks {c : Char} {cs rest : List Char} (h : skipBlanks cs = c :: rest) :
    rest <:+ cs :=
  (List.suffix_cons c rest).trans (h ▸ skipBlanks_suffix cs)

/-! ## Strings and words -/

theorem leaves_stringBody (opened : Nat) (cs : List Char) :
    Leaves cs (stringBody opened cs) := by
  fun_induction stringBody opened cs with
  | case1 | case3 => exact .error
  | case2 rest => exact .ok (List.suffix_cons _ rest)
  | case4 a b c d e rest n hn ih =>
    exact .mono (List.suffix_append ['\\', 'u', a, b, c, d] _) (ih.bind fun _ _ => .found)
  | case5 | case6 | case8 | case9 => exact .stopAt
  | case7 letter rest _ _ c hc ih =>
    exact .mono (List.suffix_append ['\\', letter] _) (ih.bind fun _ _ => .found)
  | case10 c rest _ _ _ _ _ hc ih =>
    exact .mono (List.suffix_cons c _) (ih.bind fun _ _ => .found)

theorem leaves_stringAfterQuote (cs : List Char) : Leaves cs (stringAfterQuote cs) :=
  (leaves_stringBody _ cs).bind fun _ _ => .found

theorem suffix_of_word? {cs rest : List Char} {v : Json} (h : word? cs = some (v, rest)) :
    rest <:+ cs := by
  obtain ⟨⟨word, value⟩, _, hfound⟩ := List.exists_of_findSome?_eq_some h
  obtain ⟨after, hafter, hpair⟩ := Option.map_eq_some_iff.mp hfound
  cases hpair
  unfold afterWord? at hafter
  split at hafter <;> cases hafter
  exact List.drop_suffix _ cs

/-! ## Numbers -/

theorem digits_suffix (cs : List Char) : (digits cs).2 <:+ cs :=
  List.dropWhile_suffix Char.isDigit

theorem suffix_of_natural? {cs ds rest : List Char} (h : natural? cs = some (ds, rest)) :
    rest <:+ cs := by
  unfold natural? at h
  split at h
  · cases h
    exact List.suffix_cons _ rest
  · next first more _ =>
    split at h <;> cases h
    exact digits_suffix (first :: more)
  · cases h

theorem suffix_of_integer? {cs ds rest : List Char} (h : integer? cs = some (ds, rest)) :
    rest <:+ cs := by
  unfold integer? at h
  split at h
  · next more =>
    obtain ⟨⟨ds', rest'⟩, hnatural, hpair⟩ := Option.map_eq_some_iff.mp h
    cases hpair
    exact (suffix_of_natural? hnatural).trans (List.suffix_cons _ more)
  · exact suffix_of_natural? h

theorem fraction_suffix (cs : List Char) : (fraction cs).2 <:+ cs := by
  unfold fraction
  split
  · next rest =>
    split
    · exact List.suffix_rfl
    · next ds more _ hdigits =>
      have hsuffix := digits_suffix rest
      rw [hdigits] at hsuffix
      exact hsuffix.trans (List.suffix_cons _ rest)
  · exact List.suffix_rfl

theorem sign_suffix (cs : List Char) : (sign cs).2 <:+ cs := by
  unfold sign
  split
  · exact List.suffix_cons _ _
  · exact List.suffix_cons _ _
  · exact List.suffix_rfl

theorem exponent_suffix (cs : List Char) : (exponent cs).2 <:+ cs := by
  unfold exponent
  split
  · exact List.suffix_rfl
  · next c rest =>
    split
    · dsimp only
      split
      · exact List.suffix_rfl
      · next ds more _ hdigits =>
        have hsuffix := digits_suffix (sign rest).2
        rw [hdigits] at hsuffix
        exact (hsuffix.trans (sign_suffix rest)).trans (List.suffix_cons c rest)
    · exact List.suffix_rfl

/-- A number is an integer, and the fraction and the exponent that come behind it. -/
theorem numeral?_eq_some_iff {cs rest : List Char} {n : Numeral} :
    numeral? cs = some (n, rest) ↔ ∃ whole after, integer? cs = some (whole, after) ∧
      n = ⟨whole, (fraction after).1, (exponent (fraction after).2).1⟩ ∧
      rest = (exponent (fraction after).2).2 := by
  unfold numeral?
  cases integer? cs with
  | none => simp
  | some found => simp [Prod.ext_iff, eq_comm, and_assoc]

theorem suffix_of_numeral? {cs rest : List Char} {n : Numeral} (h : numeral? cs = some (n, rest)) :
    rest <:+ cs := by
  obtain ⟨whole, after, hinteger, _, rfl⟩ := numeral?_eq_some_iff.mp h
  exact ((exponent_suffix _).trans (fraction_suffix after)).trans (suffix_of_integer? hinteger)

theorem leaves_scalar (cs : List Char) : Leaves cs (scalar cs) := by
  unfold scalar
  split
  · next found hword => exact .ok (suffix_of_word? hword)
  · split
    · exact .stopAt
    · next n rest hnumeral =>
      split
      · exact .error
      · exact .ok (suffix_of_numeral? hnumeral)

/-! ## Values -/

section

variable {α : Type} {close : Char} {inner : List Char → Except Stop (Reading (List α))}
  {cs : List Char}

theorem leaves_bracketed (h : ∀ cs, Leaves cs (inner cs)) :
    Leaves cs (bracketed close inner cs) := by
  unfold bracketed
  split
  · exact .mono List.nil_suffix (h [])
  · next c rest hcs =>
    split
    · exact .ok (suffix_of_skipBlanks hcs)
    · exact .mono (hcs ▸ skipBlanks_suffix cs) (h _)

theorem leaves_listed {item : α} (h : ∀ cs, Leaves cs (inner cs)) :
    Leaves cs (listed close item inner cs) := by
  unfold listed
  split
  · exact .stopAt
  · next c rest hcs =>
    have hrest := suffix_of_skipBlanks hcs
    split
    · exact .ok hrest
    · split
      · exact .mono ((skipBlanks_suffix rest).trans hrest) ((h _).bind fun _ _ => .found)
      · exact .stopAt

theorem leaves_afterColon {inner : List Char → Except Stop (Reading α)}
    (h : ∀ cs, Leaves cs (inner cs)) : Leaves cs (afterColon inner cs) := by
  unfold afterColon
  split
  · exact .stopAt
  · next c rest hcs =>
    split
    · exact .mono ((skipBlanks_suffix rest).trans (suffix_of_skipBlanks hcs)) (h _)
    · exact .stopAt

end

/-- What any reading leaves is the end of what it was given. -/
theorem leaves_values (depth : Nat) :
    (∀ cs, Leaves cs (value depth cs)) ∧
    (∀ cs, Leaves cs (items depth cs)) ∧
    (∀ cs, Leaves cs (fields depth cs)) := by
  induction depth with
  | zero => exact ⟨fun _ => .stopAt, fun _ => .stopAt, fun _ => .stopAt⟩
  | succ depth ih =>
    obtain ⟨hvalue, hitems, hfields⟩ := ih
    refine ⟨fun cs => ?value, fun cs => ?items, fun cs => ?fields⟩
    case value =>
      rw [value.eq_def]
      dsimp only
      split
      · next rest =>
        exact .mono (List.suffix_cons _ rest)
          ((leaves_stringAfterQuote rest).bind fun _ _ => .found)
      · next rest =>
        exact .mono (List.suffix_cons _ rest) ((leaves_bracketed hitems).bind fun _ _ => .found)
      · next rest =>
        exact .mono (List.suffix_cons _ rest) ((leaves_bracketed hfields).bind fun _ _ => .found)
      · exact leaves_scalar cs
    case items =>
      rw [items]
      exact (hvalue cs).bind fun _ _ => leaves_listed hitems
    case fields =>
      rw [fields.eq_def]
      dsimp only
      split
      · next rest =>
        refine .mono (List.suffix_cons _ rest) ?_
        refine (leaves_stringAfterQuote rest).bind fun _ _ => ?_
        exact (leaves_afterColon hvalue).bind fun _ _ => leaves_listed hfields
      · exact .stopAt

/-- What a character that opens nothing starts is a word or a number. -/
theorem value_of_ne {c : Char} {depth : Nat} {rest : List Char} (hquote : c ≠ '"')
    (hbracket : c ≠ '[') (hbrace : c ≠ '{') :
    value (depth + 1) (c :: rest) = scalar (c :: rest) := by
  rw [value.eq_def]
  dsimp only
  split <;> simp_all

/-! ## Depth -/

section

variable {α β : Type} {cs : List Char}

/-- Two readings that go on the same way from what the first one leaves. -/
theorem bind_congr_of_leaves {x : Except Stop (Reading α)}
    {f g : Reading α → Except Stop (Reading β)} (hx : Leaves cs x)
    (h : ∀ a rest, rest.length ≤ cs.length → f (a, rest) = g (a, rest)) : x >>= f = x >>= g := by
  cases x with
  | error stop => rfl
  | ok found => exact h found.1 found.2 (hx found.1 found.2 rfl).length_le

theorem bracketed_congr {close : Char} {f g : List Char → Except Stop (Reading (List α))}
    (h : ∀ more : List Char, more.length ≤ cs.length → f more = g more) :
    bracketed close f cs = bracketed close g cs := by
  have hblanks := length_skipBlanks cs
  unfold bracketed
  split
  · exact h [] (Nat.zero_le _)
  · next c rest hcs =>
    rw [hcs] at hblanks
    rw [h _ hblanks]

theorem listed_congr {close : Char} {item : α} {f g : List Char → Except Stop (Reading (List α))}
    (h : ∀ more : List Char, more.length < cs.length → f more = g more) :
    listed close item f cs = listed close item g cs := by
  have hblanks := length_skipBlanks cs
  unfold listed
  split
  · rfl
  · next c rest hcs =>
    have hmore := length_skipBlanks rest
    rw [hcs, List.length_cons] at hblanks
    rw [h _ (by omega)]

theorem afterColon_congr {f g : List Char → Except Stop (Reading α)}
    (h : ∀ more : List Char, more.length < cs.length → f more = g more) :
    afterColon f cs = afterColon g cs := by
  have hblanks := length_skipBlanks cs
  unfold afterColon
  split
  · rfl
  · next c rest hcs =>
    have hmore := length_skipBlanks rest
    rw [hcs, List.length_cons] at hblanks
    rw [h _ (by omega)]

end

/-- Two counts that are large enough give the same reading. An item needs one more than a
value, and every item but the first has a comma before it. -/
theorem values_depth (depth depth' : Nat) :
    (∀ cs : List Char, 2 * cs.length < depth → 2 * cs.length < depth' →
      value depth cs = value depth' cs) ∧
    (∀ cs : List Char, 2 * cs.length + 1 < depth → 2 * cs.length + 1 < depth' →
      items depth cs = items depth' cs) ∧
    (∀ cs : List Char, 2 * cs.length + 1 < depth → 2 * cs.length + 1 < depth' →
      fields depth cs = fields depth' cs) := by
  induction depth generalizing depth' with
  | zero => exact ⟨by omega, by omega, by omega⟩
  | succ depth ih =>
    cases depth' with
    | zero => exact ⟨by omega, by omega, by omega⟩
    | succ depth' =>
      obtain ⟨hvalue, hitems, hfields⟩ := ih depth'
      obtain ⟨lvalue, litems, lfields⟩ := leaves_values depth'
      refine ⟨fun cs h h' => ?value, fun cs h h' => ?items, fun cs h h' => ?fields⟩
      case value =>
        rw [value.eq_def, value.eq_def]
        dsimp only
        split
        · rfl
        · next rest =>
          rw [List.length_cons] at h h'
          rw [bracketed_congr fun more hmore => hitems more (by omega) (by omega)]
        · next rest =>
          rw [List.length_cons] at h h'
          rw [bracketed_congr fun more hmore => hfields more (by omega) (by omega)]
        · rfl
      case items =>
        rw [items, items, hvalue cs (by omega) (by omega)]
        refine bind_congr_of_leaves (lvalue cs) fun item rest hrest => ?_
        exact listed_congr fun more hmore => hitems more (by omega) (by omega)
      case fields =>
        rw [fields.eq_def, fields.eq_def]
        dsimp only
        split
        · next rest =>
          rw [List.length_cons] at h h'
          refine bind_congr_of_leaves (leaves_stringAfterQuote rest) fun name more hmore => ?_
          dsimp only
          rw [afterColon_congr fun after hafter => hvalue after (by omega) (by omega)]
          refine bind_congr_of_leaves (leaves_afterColon lvalue) fun item after hafter => ?_
          dsimp only
          exact listed_congr fun last hlast => hfields last (by omega) (by omega)
        · rfl

/-- The count is never used up: it does not matter which one it is that is large enough. -/
theorem value_depth {depth depth' : Nat} {cs : List Char} (h : 2 * cs.length < depth)
    (h' : 2 * cs.length < depth') : value depth cs = value depth' cs :=
  (values_depth depth depth').1 cs h h'

end FlexSynth.Json
