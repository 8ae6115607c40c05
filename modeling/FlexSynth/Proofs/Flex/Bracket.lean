import FlexSynth.Proofs.Flex.Spelling
import Mathlib.Data.List.TakeWhile
import Mathlib.Tactic.SplitIfs

/-!
# Bracket expressions

A bracket expression that lists some characters is read as these characters one by one, and is
closed by its last bracket, whatever the characters are and whatever follows (`Lists`), with one
exception (`bracket_lists_iff`). An opening bracket is not escaped. So when the characters end
like a named class that lacks its bracket (`EndsInClass`), flex takes the bracket that should
close the expression for the one of the class, and the expression is left open. In the plain
dialect nothing is taken so (`Dialect.Closes`).
-/

namespace FlexSynth.Flex

/-! ## Sets -/

section

variable (meaning : List Char → Char → Prop)

/-- The characters of a member, from those of the named classes. -/
def Member.Holds : Member → Char → Prop
  | .single d, c => c = d
  | .range low high, c => low ≤ c ∧ c ≤ high
  | .named name, c => meaning name c

def Bracket.Contains (b : Bracket) (c : Char) : Prop :=
  if b.negated then ¬∃ m ∈ b.members, m.Holds meaning c
  else ∃ m ∈ b.members, m.Holds meaning c

theorem contains_singles (chars : List Char) (c : Char) :
    (Bracket.mk false (chars.map .single)).Contains meaning c ↔ c ∈ chars := by
  unfold Bracket.Contains
  rw [if_neg Bool.false_ne_true]
  simp [Member.Holds]

end

/-! ## Letters and digits -/

theorem isUpper_iff (c : Char) : c.isUpper = true ↔ 'A' ≤ c ∧ c ≤ 'Z' :=
  decide_eq_true_iff

theorem isLower_iff (c : Char) : c.isLower = true ↔ 'a' ≤ c ∧ c ≤ 'z' := by
  show (decide ('a' ≤ c) && decide (c ≤ 'z')) = true ↔ _
  rw [Bool.and_eq_true, decide_eq_true_eq, decide_eq_true_eq]

theorem isDigit_iff (c : Char) : c.isDigit = true ↔ '0' ≤ c ∧ c ≤ '9' := by
  show (decide ('0' ≤ c) && decide (c ≤ '9')) = true ↔ _
  rw [Bool.and_eq_true, decide_eq_true_eq, decide_eq_true_eq]

theorem isControl_eq_false_of_le {low high c : Char} (hlow : 0x20 ≤ low.toNat)
    (hhigh : high.toNat < 0x7f) (hc : low ≤ c ∧ c ≤ high) : Text.isControl c = false := by
  have hle : low.toNat ≤ c.toNat := UInt32.le_iff_toNat_le.mp hc.1
  have hge : c.toNat ≤ high.toNat := UInt32.le_iff_toNat_le.mp hc.2
  rw [Text.isControl_eq_false_iff]
  omega

section

variable {c d : Char}

theorem ne_of_isAlpha (h : c.isAlpha = true) (hd : d.isAlpha = false) : c ≠ d := by
  rintro rfl
  rw [hd] at h
  cases h

theorem isControl_of_isAlpha (h : c.isAlpha = true) : Text.isControl c = false := by
  change (c.isUpper || c.isLower) = true at h
  rw [Bool.or_eq_true, isUpper_iff, isLower_iff] at h
  rcases h with hupper | hlower
  · exact isControl_eq_false_of_le (by decide) (by decide) hupper
  · exact isControl_eq_false_of_le (by decide) (by decide) hlower

/-- A letter is written as itself. -/
theorem bracketChar_of_isAlpha (h : c.isAlpha = true) : Regex.bracketChar c = [c] := by
  have hspecial : ¬(c = '\\' ∨ c = ']' ∨ c = '^' ∨ c = '-') := by
    rintro (rfl | rfl | rfl | rfl) <;> cases h
  unfold Regex.bracketChar
  rw [if_neg hspecial, if_neg (ne_of_isAlpha h rfl), if_neg (ne_of_isAlpha h rfl),
    if_neg (ne_of_isAlpha h rfl), isControl_of_isAlpha h, if_neg Bool.false_ne_true]

end

/-! ## Named classes -/

section

variable {dialect : Dialect} {name text rest more chars : List Char} {c : Char}

/-- Letters, of which there is at least one. -/
def IsClassName (name : List Char) : Prop :=
  name ≠ [] ∧ ∀ c ∈ name, c.isAlpha = true

theorem className?_eq_some_iff : className? dialect text = some name ↔ dialect = .named ∧
    IsClassName name ∧ ∃ rest, text = '[' :: ':' :: (name ++ ':' :: ']' :: rest) := by
  unfold className?
  split
  · next body =>
    simp only [Option.ite_none_right_eq_some, Option.some.injEq]
    constructor
    · rintro ⟨⟨hdialect, hne, rest, hrest⟩, rfl⟩
      refine ⟨hdialect, ⟨hne, fun c hc => List.mem_takeWhile_imp hc⟩, rest, ?_⟩
      have hbody := List.takeWhile_append_dropWhile (p := Char.isAlpha) (l := body)
      rw [← hrest] at hbody
      rw [← List.cons_append, ← List.cons_append] at *
      exact congrArg (fun body => '[' :: ':' :: body) hbody.symm
    · rintro ⟨hdialect, ⟨hne, halpha⟩, rest, htext⟩
      cases htext
      rw [List.takeWhile_append_of_pos halpha, List.dropWhile_append_of_pos halpha]
      have hcolon : Char.isAlpha ':' = false := by decide
      simp [hdialect, hne, hcolon]
  · next hother =>
    refine ⟨nofun, ?_⟩
    rintro ⟨_, _, rest, rfl⟩
    exact absurd rfl (hother _)

/-- The text ends like a named class that lacks its closing bracket. -/
def EndsInClass (text : List Char) : Prop :=
  ∃ name, IsClassName name ∧ '[' :: ':' :: (name ++ [':']) <:+ text

theorem getLast?_of_endsInClass (h : EndsInClass text) : text.getLast? = some ':' := by
  obtain ⟨name, _, before, rfl⟩ := h
  rw [← List.cons_append, ← List.cons_append, ← List.append_assoc, List.getLast?_concat]

/-- The bracket behind these characters closes what lists them. -/
def Dialect.Closes (dialect : Dialect) (chars : List Char) : Prop :=
  dialect = .named → ¬EndsInClass chars

theorem closes_plain (chars : List Char) : Dialect.plain.Closes chars :=
  nofun

theorem Dialect.Closes.tail (h : dialect.Closes (c :: chars)) : dialect.Closes chars := by
  rintro hnamed ⟨name, hname, hsuffix⟩
  exact h hnamed ⟨name, hname, hsuffix.trans (List.suffix_cons c chars)⟩

/-! ## The inside of a bracket expression -/

theorem parts?_skip {first : Bool} (code rest : List Char) :
    parts? dialect code.length first (code ++ rest) =
      (parts? dialect 0 first rest).map fun (parts, n) => (parts, n + code.length) := by
  induction code with
  | nil => exact (Option.map_id' (x := parts? dialect 0 first rest)).symm
  | cons c code ih =>
    rw [List.length_cons, List.cons_append, parts?, ih, Option.map_map]
    rfl

/-- Nothing closes the expression in what has been read already. -/
theorem parts?_length {first : Bool} (code : List Char) :
    parts? dialect code.length first code = none := by
  have h : parts? dialect code.length first (code ++ []) = none := by
    rw [parts?_skip]
    rfl
  rwa [List.append_nil] at h

/-- A listed character is one part, unless a named class starts with it. -/
theorem parts?_bracketChar {first : Bool} (c : Char) (rest : List Char)
    (hclass : Regex.bracketChar c = [c] → className? dialect (c :: rest) = none) :
    parts? dialect 0 first (Regex.bracketChar c ++ rest) = (parts? dialect 0 false rest).map
      fun (parts, n) => (.glyph (glyphOf (Regex.bracketChar c) c) :: parts,
        n + (Regex.bracketChar c).length) := by
  have hspelling := spelling_bracketChar c
  have hclose := bracketChar_ne_special (d := ']') (.inl rfl) c
  have hglyph := hspelling.glyph? rest
  have hopen : ∃ first more, Regex.bracketChar c = first :: more ∧ first ≠ ']' ∧
      className? dialect (first :: (more ++ rest)) = none := by
    generalize Regex.bracketChar c = spelling at *
    cases hspelling with
    | plain _ _ =>
      rw [glyphOf_self] at hclose
      exact ⟨c, [], rfl, fun h => hclose (congrArg Glyph.plain h), hclass rfl⟩
    | escape _ => exact ⟨'\\', _, rfl, by decide, rfl⟩
  obtain ⟨d, more, hcode, hd, hnone⟩ := hopen
  rw [hcode, List.cons_append] at hglyph ⊢
  rw [parts?, if_neg fun h => hd h.1, hnone, hglyph]
  dsimp only
  rw [List.length_cons, Nat.add_sub_cancel, parts?_skip, Option.map_map]
  rfl

/-- Where characters are followed by the closing bracket, a text without backslashes and closing
brackets can only be these characters. -/
theorem eq_of_bracketBody_append (htext : ∀ c ∈ text, c ≠ '\\' ∧ c ≠ ']')
    (h : Regex.bracketBody chars ++ ']' :: rest = text ++ ']' :: more) : chars = text := by
  unfold Regex.bracketBody at h
  induction text generalizing chars with
  | nil =>
    cases chars with
    | nil => rfl
    | cons c chars =>
      rw [List.flatMap_cons] at h
      have hclose := bracketChar_ne_special (d := ']') (.inl rfl) c
      have hspelling := spelling_bracketChar c
      generalize Regex.bracketChar c = spelling at *
      cases hspelling with
      | plain _ _ =>
        rw [glyphOf_self] at hclose
        exact absurd (congrArg Glyph.plain (List.cons.inj h).1) hclose
      | escape _ => cases (List.cons.inj h).1
  | cons t text ih =>
    -- A character that is spelled by an escape would bring a backslash into the text.
    obtain ⟨ht, hrest⟩ := List.forall_mem_cons.mp htext
    cases chars with
    | nil => exact absurd (List.cons.inj h).1.symm ht.2
    | cons c chars =>
      rw [List.flatMap_cons] at h
      have hspelling := spelling_bracketChar c
      generalize Regex.bracketChar c = spelling at *
      cases hspelling with
      | plain _ _ =>
        obtain ⟨rfl, htail⟩ := List.cons.inj h
        rw [ih hrest htail]
      | escape _ => exact absurd (List.cons.inj h).1.symm ht.1

theorem not_special_of_isClassName (h : IsClassName name) :
    ∀ c ∈ ':' :: (name ++ [':']), c ≠ '[' ∧ c ≠ '\\' ∧ c ≠ ']' ∧ Regex.bracketChar c = [c] := by
  intro c hc
  rw [List.mem_cons, List.mem_append, List.mem_singleton] at hc
  rcases hc with rfl | hc | rfl
  · decide
  · have halpha := h.2 c hc
    exact ⟨ne_of_isAlpha halpha rfl, ne_of_isAlpha halpha rfl, ne_of_isAlpha halpha rfl,
      bracketChar_of_isAlpha halpha⟩
  · decide

/-- Among listed characters, a named class starts only where it is the closing bracket that
completes it. -/
theorem className?_bracketBody
    (h : className? dialect (c :: (Regex.bracketBody chars ++ ']' :: rest)) = some name) :
    dialect = .named ∧ c = '[' ∧ chars = ':' :: (name ++ [':']) ∧ IsClassName name := by
  obtain ⟨hdialect, hname, more, htext⟩ := className?_eq_some_iff.mp h
  obtain ⟨rfl, hbody⟩ := List.cons.inj htext
  refine ⟨hdialect, rfl, ?_, hname⟩
  have hplain : ∀ c ∈ ':' :: (name ++ [':']), c ≠ '\\' ∧ c ≠ ']' := by
    intro c hc
    obtain ⟨_, hslash, hclose, _⟩ := not_special_of_isClassName hname c hc
    exact ⟨hslash, hclose⟩
  have hsame : Regex.bracketBody chars ++ ']' :: rest = ':' :: (name ++ [':']) ++ ']' :: more := by
    rw [hbody]
    simp
  exact eq_of_bracketBody_append hplain hsame

/-- Listed characters are read one by one, up to the closing bracket. -/
theorem parts?_bracketBody (hend : dialect.Closes chars) (rest : List Char) {first : Bool}
    (hfirst : first = true → chars ≠ []) :
    parts? dialect 0 first (Regex.bracketBody chars ++ ']' :: rest) =
      some (chars.map fun c => .glyph (glyphOf (Regex.bracketChar c) c),
        (Regex.bracketBody chars).length + 1) := by
  induction chars generalizing first with
  | nil =>
    have hread : first = false := by
      rw [Bool.eq_false_iff]
      exact fun h => hfirst h rfl
    rw [hread]
    rfl
  | cons c chars ih =>
    have hclass : className? dialect (c :: (Regex.bracketBody chars ++ ']' :: rest)) = none := by
      rw [Option.eq_none_iff_forall_not_mem]
      intro name hname
      obtain ⟨hdialect, rfl, rfl, hisName⟩ := className?_bracketBody hname
      exact hend hdialect ⟨name, hisName, List.suffix_rfl⟩
    rw [bracketBody_cons, List.append_assoc, parts?_bracketChar c _ fun _ => hclass,
      ih hend.tail fun h => absurd h Bool.false_ne_true, Option.map_some, List.length_append]
    dsimp only
    rw [Nat.add_right_comm, Nat.add_comm (Regex.bracketChar c).length]
    rfl

/-- The closing bracket is taken for that of a named class, and nothing closes the expression. -/
theorem parts?_eq_none (hend : EndsInClass chars) {first : Bool} :
    parts? .named 0 first (Regex.bracketBody chars ++ [']']) = none := by
  obtain ⟨name, hname, before, rfl⟩ := hend
  have hspecial := not_special_of_isClassName hname
  have hbody : Regex.bracketBody (':' :: (name ++ [':'])) = ':' :: (name ++ [':']) := by
    unfold Regex.bracketBody
    rw [List.flatMap_congr fun c hc => (hspecial c hc).2.2.2]
    exact List.flatMap_singleton' _
  -- No earlier character starts a named class, since that one would end in the same place.
  induction before generalizing first with
  | nil =>
    have hcons : Regex.bracketBody ('[' :: ':' :: (name ++ [':'])) =
        '[' :: Regex.bracketBody (':' :: (name ++ [':'])) := rfl
    have hclass : className? .named ('[' :: ':' :: (name ++ [':', ']'])) = some name :=
      className?_eq_some_iff.mpr ⟨rfl, hname, [], rfl⟩
    have hopen : parts? .named (name.length + 3) false (':' :: (name ++ [':', ']'])) = none := by
      have hlength : name.length + 3 = (':' :: (name ++ [':', ']'])).length := by simp
      rw [hlength, parts?_length]
    rw [List.nil_append, hcons, hbody, List.cons_append, List.cons_append, List.append_assoc,
      List.singleton_append, parts?, if_neg (by simp), hclass]
    dsimp only
    rw [hopen]
    rfl
  | cons c before ih =>
    rw [List.cons_append, bracketBody_cons, List.append_assoc, parts?_bracketChar, ih]
    · rfl
    · intro _
      rw [Option.eq_none_iff_forall_not_mem]
      intro other hother
      obtain ⟨_, _, hsame, hotherName⟩ := className?_bracketBody hother
      have hmem : '[' ∈ ':' :: (other ++ [':']) := hsame ▸ by simp
      exact (not_special_of_isClassName hotherName _ hmem).1 rfl

/-- Without plain hyphens there are no ranges. -/
theorem members_of_no_hyphen {gs : List Glyph} (h : ∀ g ∈ gs, g ≠ .plain '-') :
    members (gs.map .glyph) = gs.map fun g => .single g.char := by
  induction gs with
  | nil => rfl
  | cons g gs ih =>
    rw [List.map_cons, members, ih fun k hk => h k (List.mem_cons_of_mem _ hk), List.map_cons]
    rintro k ks hks
    obtain ⟨hyphen, rest, rfl, hhyphen, _⟩ := List.map_eq_cons_iff.mp hks
    have hmem : hyphen ∈ g :: hyphen :: rest := List.mem_cons_of_mem _ List.mem_cons_self
    exact h hyphen hmem (Part.glyph.inj hhyphen)

end

/-! ## Bracket expressions -/

section

variable {dialect : Dialect} {chars : List Char}

theorem readBracket?_cons {c : Char} (hc : c ≠ '^') (text : List Char) :
    readBracket? dialect ('[' :: c :: text) = (parts? dialect 0 true (c :: text)).map
      fun (parts, n) => (⟨false, Flex.members parts⟩, n + 1) := by
  rw [readBracket?]
  rintro rest h
  exact hc (List.cons.inj h).1

/-- The inside of a bracket expression never starts with a caret. -/
theorem exists_cons_of_bracketBody (hne : chars ≠ []) :
    ∃ c text, Regex.bracketBody chars = c :: text ∧ c ≠ '^' := by
  obtain ⟨c, rest, rfl⟩ := List.exists_cons_of_ne_nil hne
  have hcaret := bracketChar_ne_special (d := '^') (.inr (.inl rfl)) c
  have hspelling := spelling_bracketChar c
  rw [bracketBody_cons]
  generalize Regex.bracketChar c = spelling at *
  cases hspelling with
  | plain _ _ =>
    rw [glyphOf_self] at hcaret
    exact ⟨c, _, rfl, fun h => hcaret (congrArg Glyph.plain h)⟩
  | escape _ => exact ⟨'\\', _, rfl, by decide⟩

theorem readBracket?_bracket (hne : chars ≠ []) (rest : List Char) :
    readBracket? dialect ('[' :: (Regex.bracketBody chars ++ ']' :: rest)) =
      (parts? dialect 0 true (Regex.bracketBody chars ++ ']' :: rest)).map
        fun (parts, n) => (⟨false, Flex.members parts⟩, n + 1) := by
  obtain ⟨c, text, hbody, hc⟩ := exists_cons_of_bracketBody hne
  rw [hbody, List.cons_append]
  exact readBracket?_cons hc _

/-- The bracket expression for some characters lists them one by one, and ends at its last
bracket. -/
theorem readBracket?_bracketBody (hne : chars ≠ []) (hend : dialect.Closes chars)
    (rest : List Char) :
    readBracket? dialect ('[' :: (Regex.bracketBody chars ++ [']']) ++ rest) =
      some (⟨false, chars.map .single⟩, ('[' :: (Regex.bracketBody chars ++ [']'])).length) := by
  have hhyphen : ∀ g ∈ chars.map fun c => glyphOf (Regex.bracketChar c) c, g ≠ .plain '-' := by
    intro g hg
    obtain ⟨c, _, rfl⟩ := List.mem_map.mp hg
    exact bracketChar_ne_special (.inr (.inr rfl)) c
  have hmembers : Flex.members (chars.map fun c => .glyph (glyphOf (Regex.bracketChar c) c)) =
      chars.map .single := by
    have hparts := members_of_no_hyphen hhyphen
    rw [List.map_map, List.map_map] at hparts
    simpa [Function.comp_def] using hparts
  rw [List.cons_append, List.append_assoc, List.singleton_append, readBracket?_bracket hne,
    parts?_bracketBody hend rest fun _ => hne, Option.map_some]
  dsimp only
  rw [hmembers, List.length_cons, List.length_append, List.length_singleton]

end

/-- The text is a bracket expression that lists the characters, each by itself. -/
structure Lists (text chars : List Char) : Prop where
  /-- Its last character closes it, whatever follows. -/
  read : ∀ rest,
    readBracket? .named (text ++ rest) = some (⟨false, chars.map .single⟩, text.length)
  /-- Its set is that of the characters, whatever the named classes are. -/
  contains : ∀ rest b n, readBracket? .named (text ++ rest) = some (b, n) →
    ∀ meaning c, b.Contains meaning c ↔ c ∈ chars

theorem lists_of_not_endsInClass {chars : List Char} (hne : chars ≠ [])
    (hend : ¬EndsInClass chars) : Lists ('[' :: (Regex.bracketBody chars ++ [']'])) chars := by
  have hread := @readBracket?_bracketBody .named chars hne fun _ => hend
  refine ⟨hread, fun rest b n h meaning c => ?_⟩
  rw [hread rest] at h
  cases h
  exact contains_singles meaning chars c

/-! ## Control characters -/

/-- A control character is never written as it is. -/
theorem isControl_of_mem_bracketChar {c d : Char} (h : d ∈ Regex.bracketChar c) :
    Text.isControl d = false := by
  have hescape {letter : Char} (hletter : Text.isControl letter = false)
      (hd : d ∈ ['\\', letter]) : Text.isControl d = false := by
    rcases List.mem_pair.mp hd with rfl | rfl
    · decide
    · exact hletter
  unfold Regex.bracketChar at h
  split_ifs at h with hspecial _ _ _ hcontrol
  · rcases hspecial with rfl | rfl | rfl | rfl <;> exact hescape (by decide) h
  · exact hescape (by decide) h
  · exact hescape (by decide) h
  · exact hescape (by decide) h
  · exact Text.isControl_of_mem_octalEscape h
  · rw [List.mem_singleton.mp h]
    exact Bool.eq_false_iff.mpr hcontrol

/-- A bracket expression for some characters lists them, unless they end like a named class. Then
its last character is taken for that of the class, and the expression is left open. In either
case there is no control character in it. -/
theorem bracket_lists_iff {chars : String} (hne : chars ≠ "") :
    (Lists (Regex.bracket chars).toList chars.toList ↔ ¬EndsInClass chars.toList) ∧
    (EndsInClass chars.toList → readBracket? .named (Regex.bracket chars).toList = none) ∧
    ∀ c ∈ (Regex.bracket chars).toList, 0x20 ≤ c.toNat ∧ c.toNat ≠ 0x7f := by
  have hne : chars.toList ≠ [] := by simpa using hne
  have hopen (hend : EndsInClass chars.toList) :
      readBracket? .named (Regex.bracket chars).toList = none := by
    rw [toList_bracket, readBracket?_bracket hne, parts?_eq_none hend]
    rfl
  refine ⟨⟨fun hlists hend => ?_, fun hend => ?_⟩, hopen, fun c hc => ?_⟩
  · have hread := hlists.read []
    rw [List.append_nil, hopen hend] at hread
    cases hread
  · rw [toList_bracket]
    exact lists_of_not_endsInClass hne hend
  · rw [toList_bracket] at hc
    rw [← Text.isControl_eq_false_iff]
    simp only [List.mem_cons, List.mem_append, List.not_mem_nil, or_false] at hc
    rcases hc with rfl | hc | rfl
    · decide
    · obtain ⟨_, _, hd⟩ := List.mem_flatMap.mp hc
      exact isControl_of_mem_bracketChar hd
    · decide

theorem bracket_lists_specials :
    Lists (Regex.bracket "]-^[:alpha:]\x011").toList "]-^[:alpha:]\x011".toList := by
  have hend : ¬EndsInClass "]-^[:alpha:]\x011".toList := by
    intro h
    exact absurd (getLast?_of_endsInClass h) (by decide)
  exact (bracket_lists_iff (by decide)).1.mpr hend

/-- The text `[[:alpha:]` is left open. -/
theorem bracket_left_open :
    readBracket? .named (Regex.bracket "[:alpha:").toList = none ∧
      ¬Lists (Regex.bracket "[:alpha:").toList "[:alpha:".toList := by
  have hopen : readBracket? .named (Regex.bracket "[:alpha:").toList = none := by
    rw [toList_bracket]
    decide
  refine ⟨hopen, fun h => ?_⟩
  have hread := h.read []
  rw [List.append_nil, hopen] at hread
  cases hread

end FlexSynth.Flex
