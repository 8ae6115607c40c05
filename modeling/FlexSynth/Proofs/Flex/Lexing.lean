import FlexSynth.Proofs.Flex.Bracket
import FlexSynth.Proofs.Partial

/-!
# Texts cut into lexemes

How the quoted literals and bracket expressions that are written into pattern texts are cut out
of them. Each is one lexeme wherever it stands, so readings of texts can be put one after the
other.

* `Spells dialect text l`: wherever the text stands, it is read as this lexeme.
* `Cuts dialect text ls`: the text is a row of texts that spell these lexemes.
* `Lexes macro text ts`: wherever the text stands outside of quotes, it is read as these tokens.
* `spells_cString`, `spells_bracket`: a quoted literal is the lexeme of its text, and a bracket
  expression the lexeme of its characters, unless flex takes its last bracket for that of a
  named class.
-/

namespace FlexSynth.Flex

open Partial

/-- The text is read as this lexeme, whatever follows it. -/
def Spells (dialect : Dialect) (text : List Char) (l : Lexeme) : Prop :=
  ∀ rest, lexeme? dialect (text ++ rest) = some (l, text.length)

/-- The text is a row of texts that spell these lexemes. -/
inductive Cuts (dialect : Dialect) : List Char → List Lexeme → Prop
  | nil : Cuts dialect [] []
  | cons {code text : List Char} {l : Lexeme} {ls : List Lexeme} : Spells dialect code l →
      Cuts dialect text ls → Cuts dialect (code ++ text) (l :: ls)

/-- The text is read as these tokens outside of quotes, whatever follows it. -/
def Lexes (macro? : List Char → Option Pattern) (text : List Char) (ts : List Token) : Prop :=
  ∃ ls, Cuts .plain text ls ∧ ls.mapM (token? macro?) = some ts

section

variable {dialect : Dialect} {macro? : List Char → Option Pattern} {text more : List Char}
  {l : Lexeme} {ls ms : List Lexeme} {ts us : List Token}

/-! ## Texts one after the other -/

theorem Spells.exists_cons (h : Spells dialect text l) : ∃ c code, text = c :: code := by
  refine List.exists_cons_of_ne_nil ?_
  rintro rfl
  cases h []

theorem Spells.cuts (h : Spells dialect text l) : Cuts dialect text [l] := by
  have hcuts := Cuts.cons h .nil
  rwa [List.append_nil] at hcuts

theorem Cuts.append (h : Cuts dialect text ls) (hmore : Cuts dialect more ms) :
    Cuts dialect (text ++ more) (ls ++ ms) := by
  induction h with
  | nil => exact hmore
  | cons hcode _ ih =>
    rw [List.append_assoc, List.cons_append]
    exact .cons hcode ih

theorem lexemes?_skip (code rest : List Char) :
    lexemes? dialect code.length (code ++ rest) = lexemes? dialect 0 rest := by
  induction code with
  | nil => rfl
  | cons c code ih => rw [List.length_cons, List.cons_append, lexemes?, ih]

/-- The lexemes of a text do not depend on what follows it. -/
theorem Cuts.lexemes?_append (h : Cuts dialect text ls) (rest : List Char) :
    lexemes? dialect 0 (text ++ rest) = (lexemes? dialect 0 rest).map (ls ++ ·) := by
  induction h with
  | nil => exact (Option.map_id' (x := lexemes? dialect 0 rest)).symm
  | @cons code text l ls hcode _ ih =>
    -- The first lexeme is read in front of all that follows, and its other characters are skipped.
    have hread := hcode (text ++ rest)
    obtain ⟨c, more, rfl⟩ := hcode.exists_cons
    rw [List.append_assoc, List.cons_append]
    rw [List.cons_append] at hread
    rw [lexemes?, hread]
    dsimp only
    rw [List.length_cons, Nat.add_sub_cancel, lexemes?_skip, ih, Option.map_map]
    rfl

theorem Lexes.append (h : Lexes macro? text ts) (hmore : Lexes macro? more us) :
    Lexes macro? (text ++ more) (ts ++ us) := by
  obtain ⟨ls, hls, hts⟩ := h
  obtain ⟨ms, hms, hus⟩ := hmore
  refine ⟨ls ++ ms, hls.append hms, ?_⟩
  rw [mapM_eq_some_iff] at hts hus ⊢
  exact List.rel_append hts hus

theorem lexes_nil : Lexes macro? [] [] :=
  ⟨[], .nil, rfl⟩

/-- A lexeme is one token. -/
theorem Spells.lexes {t : Token} (h : Spells .plain text l) (ht : token? macro? l = some t) :
    Lexes macro? text [t] :=
  ⟨[l], h.cuts, mapM_eq_some_iff.mpr (.cons ht .nil)⟩

/-- A text that is read as some tokens, whatever follows it, is read as them alone. -/
theorem Lexes.tokens?_eq (h : Lexes macro? text ts) : tokens? macro? text = some ts := by
  obtain ⟨ls, hls, hts⟩ := h
  have hlexemes := hls.lexemes?_append []
  rw [List.append_nil, lexemes?, Option.map_some, List.append_nil] at hlexemes
  unfold tokens?
  rw [hlexemes]
  exact hts

/-- A text that is read as some tokens has the pattern that they make. -/
theorem readWith_of_lexes {r : Reading} {p : Pattern} (hlex : Lexes macro? text ts)
    (hrun : Reading.run {} ts = some r) (hfinish : r.finish? = some p) :
    readWith macro? text = some p := by
  unfold readWith
  rw [hlex.tokens?_eq, Option.bind_eq_bind, Option.bind_some, hrun]
  exact hfinish

/-! ## Characters -/

/-- The character is neither a backslash nor the start of a longer lexeme. -/
def IsSimple (c : Char) : Prop :=
  c ∉ ['\\', '\n', '"', '\x7b', '[']

instance : DecidablePred IsSimple := fun c =>
  inferInstanceAs (Decidable (c ∉ ['\\', '\n', '"', '\x7b', '[']))

theorem spells_plain {c : Char} (h : IsSimple c) : Spells dialect [c] (.glyph (.plain c)) := by
  intro rest
  simp only [IsSimple, List.mem_cons, List.not_mem_nil, or_false, not_or] at h
  obtain ⟨hslash, hline, hquote, hbrace, hbracket⟩ := h
  simp [lexeme?, glyph?, hslash, hline, hquote, hbrace, hbracket]

/-- A character that is a token in itself. -/
theorem lexes_plain {c : Char} {t : Token} (h : IsSimple c) (ht : plainToken? c = some t) :
    Lexes macro? [c] [t] :=
  (spells_plain h).lexes ht

/-! ## Literals -/

theorem toList_cString (text : String) :
    (Text.cString text).toList = Text.quoted '"' text.toList :=
  String.toList_ofList

/-- A quoted literal is the lexeme of its text. -/
theorem spells_cString (text : String) :
    Spells dialect (Text.cString text).toList (.quoted text.toList) := by
  intro rest
  have hspelling (c : Char) : Spelling c (Text.escape '"' c) :=
    spelling_escape rfl (by decide) rfl c
  rw [toList_cString, Text.quoted, List.cons_append, List.append_assoc, List.singleton_append,
    lexeme?, if_pos rfl, enclosed?_flatMap (by decide) (by decide) (fun c _ => hspelling c)
      fun c _ => escape_ne_quote c]
  simp

theorem lexes_cString (text : String) :
    Lexes macro? (Text.cString text).toList [.atom (.literal text.toList)] :=
  (spells_cString text).lexes rfl

theorem read_cString (macros : List (String × String)) (text : String) :
    read macros (Text.cString text) = some (.literal text.toList) :=
  readWith_of_lexes (lexes_cString text) rfl rfl

/-! ## Braces -/

theorem spells_braces (name : List Char) (h : ∀ c ∈ name, c ∉ ['\\', '\n', '\x7d']) :
    Spells dialect ('\x7b' :: (name ++ ['\x7d'])) (.braces name) := by
  intro rest
  have hspelling : ∀ c ∈ name, Spelling c [c] := fun c hc =>
    .plain (fun hslash => h c hc (by simp [hslash])) fun hline => h c hc (by simp [hline])
  have hopen : ∀ c ∈ name, glyphOf [c] c ≠ .plain '\x7d' := by
    intro c hc hclose
    rw [glyphOf_self] at hclose
    exact h c hc (by simp [Glyph.plain.inj hclose])
  have hname := enclosed?_flatMap (by decide) (by decide) hspelling hopen rest
  rw [List.flatMap_singleton'] at hname
  rw [List.cons_append, List.append_assoc, List.singleton_append, lexeme?, if_neg (by decide),
    if_pos rfl, hname]
  simp

theorem lexes_braces (name : List Char) (h : ∀ c ∈ name, c ∉ ['\\', '\n', '\x7d']) {t : Token}
    (ht : bracesToken? macro? name = some t) : Lexes macro? ('\x7b' :: (name ++ ['\x7d'])) [t] :=
  (spells_braces name h).lexes ht

/-! ## Bracket expressions -/

/-- A bracket expression is the lexeme of its characters. -/
theorem spells_bracket {chars : String} (hne : chars ≠ "") (hend : dialect.Closes chars.toList) :
    Spells dialect (Regex.bracket chars).toList
      (.bracket ⟨false, chars.toList.map .single⟩) := by
  intro rest
  rw [toList_bracket, List.cons_append, lexeme?, if_neg (by decide), if_neg (by decide), if_pos rfl,
    ← List.cons_append, readBracket?_bracketBody (by simpa using hne) hend]
  rfl

theorem set?_singles (chars : List Char) : (Bracket.mk false (chars.map .single)).set? =
    some (.members (chars.map fun c => (c, c))) := by
  have hranges : (chars.map Member.single).mapM Member.range? =
      some (chars.map fun c => (c, c)) := by
    rw [mapM_eq_some_iff, List.forall₂_map_left_iff, List.forall₂_map_right_iff, List.forall₂_same]
    exact fun _ _ => rfl
  unfold Bracket.set?
  rw [hranges]
  rfl

/-- A bracket expression is the token of its characters: it is neither empty nor negated, and it
has no ranges. -/
theorem lexes_bracket {chars : String} (hne : chars ≠ "") :
    Lexes macro? (Regex.bracket chars).toList
      [.bracket (.members (chars.toList.map fun c => (c, c)))] := by
  refine (spells_bracket hne (closes_plain _)).lexes ?_
  rw [token?, set?_singles]
  rfl

end

end FlexSynth.Flex
