import FlexSynth.Proofs.Editor
import FlexSynth.Proofs.Json.Literals
import FlexSynth.Proofs.Json.Texts
import FlexSynth.Proofs.Text.Position

/-!
# Where an expression is refused

When an expression is refused, an editor warns of it and should mark the name of its token
category. The reader of the document does not say where the name stands, so it is searched for,
as its characters between two quotes, after the first key `tokens`. `StringAt` says where it does
stand. The search finds it just when the name is written without escapes, behind the place where
the search starts, and the same text does not occur between (`name_marked_iff`). Otherwise the
warning marks another place: a key of the same characters (`key_marked`), the operand of an
earlier expression, or the start of the document.
-/

namespace FlexSynth

open Partial
open Text (FirstAt Position exists_firstAt firstAt_cons)

/-! ## Names in a document -/

/-- The place of the name of a token category. -/
def namePlace (index : Nat) : Place :=
  ((Place.named "tokens").item index).field "name"

/-- The text at the place is that of a string, and stands between the offsets. -/
structure StringAt (source : List Char) (p : Place) (name : String) (start stop : Nat) : Prop where
  start_le : start ≤ source.length
  stop_le : stop ≤ source.length
  path : Json.PathText (Json.skipBlanks source) (.field p.base :: p.steps) (source.drop start)
  reads : Json.Reads (source.drop start) (.string name) (source.drop stop)

section

variable {source : List Char} {p : Place} {name : String} {start stop : Nat}

theorem StringAt.unique {name' : String} {start' stop' : Nat}
    (h : StringAt source p name start stop) (h' : StringAt source p name' start' stop') :
    start' = start ∧ stop' = stop := by
  have hdrop {m n : Nat} (hm : m ≤ source.length) (hn : n ≤ source.length)
      (hsame : source.drop m = source.drop n) : m = n := by
    have hlength := congrArg List.length hsame
    rw [List.length_drop, List.length_drop] at hlength
    omega
  have htext := h'.path.unique h.path
  have hread := h'.reads
  rw [htext] at hread
  exact ⟨hdrop h'.start_le h.start_le htext,
    hdrop h'.stop_le h.stop_le (hread.unique h.reads).2⟩

/-- A string that is a part of a document has something before it. -/
theorem StringAt.start_pos (h : StringAt source p name start stop) : 0 < start := by
  obtain ⟨body, hbody, _⟩ := Json.string_of_reads h.reads
  refine Nat.pos_of_ne_zero ?_
  rintro rfl
  rw [List.drop_zero] at hbody
  subst hbody
  obtain ⟨inner, hstep, _⟩ := h.path
  have hblanks : Json.skipBlanks ('"' :: body) = '"' :: body := rfl
  rw [hblanks] at hstep
  cases hstep

/-- The string with its quotes, which stands on one line. -/
theorem StringAt.exists_literal (h : StringAt source p name start stop) :
    ∃ literal, source.drop start = '"' :: literal ++ source.drop stop ∧
      stop = start + (literal.length + 1) ∧ '\n' ∉ literal := by
  obtain ⟨body, hbody, hread⟩ := Json.string_of_reads h.reads
  obtain ⟨literal, rfl, hline⟩ := Json.exists_literal hread
  have hlength := congrArg List.length hbody
  have hstart := h.start_le
  have hstop := h.stop_le
  simp only [List.length_drop, List.length_cons, List.length_append] at hlength
  exact ⟨literal, hbody, by omega, hline⟩

theorem exists_stringAt {source : String} {document : Json} (h : Json.decode source = .ok document)
    (hname : p.follow? document = some (.string name)) :
    ∃ start stop, StringAt source.toList p name start stop := by
  obtain ⟨after, hread⟩ := Json.exists_reads_of_decode h
  have hsteps : (.field p.base :: p.steps).foldlM Place.Step.follow? document =
      some (.string name) := hname
  obtain ⟨text, hpath, htext, rest, hreads⟩ := Json.exists_pathText hread hsteps
  have hsource := htext.trans (Json.skipBlanks_suffix source.toList)
  have hrest := hreads.suffix.trans hsource
  rw [List.suffix_iff_eq_drop.mp hsource] at hpath hreads
  rw [List.suffix_iff_eq_drop.mp hrest] at hreads
  exact ⟨_, _, Nat.sub_le _ _, Nat.sub_le _ _, hpath, hreads⟩

end

/-! ## The search -/

/-- The characters start with the key `tokens` and a colon, and it is so many of them. -/
def TokensKey (cs : List Char) (length : Nat) : Prop :=
  ∃ blanks rest, cs = "\"tokens\"".toList ++ (blanks ++ ':' :: rest) ∧
    (∀ c ∈ blanks, Json.isBlank c = true) ∧ length = 8 + blanks.length + 1

/-- The search for a name starts behind the first key `tokens` or, if there is none, at the start
of the text. -/
def SearchStart (source : List Char) (start : Nat) : Prop :=
  (∃ offset length, TokensKey (source.drop offset) length ∧ start = offset + length ∧
    ∀ p < offset, ∀ n, ¬TokensKey (source.drop p) n) ∨
  (∀ p n, ¬TokensKey (source.drop p) n) ∧ start = 0

/-- From an offset on, the text stands at another one for the first time. -/
structure FoundFirst (source needle : List Char) (start offset : Nat) : Prop where
  start_le : start ≤ offset
  stands : needle <+: source.drop offset
  least : ∀ p, start ≤ p → p < offset → ¬needle <+: source.drop p

theorem drop_length_takeWhile (p : Char → Bool) (cs : List Char) :
    cs.drop (cs.takeWhile p).length = cs.dropWhile p := by
  have hdrop := @List.drop_left _ (cs.takeWhile p) (cs.dropWhile p)
  rwa [List.takeWhile_append_dropWhile] at hdrop

theorem tokensKeyLength?_eq_some_iff {cs : List Char} {length : Nat} :
    tokensKeyLength? cs = some length ↔ TokensKey cs length := by
  unfold tokensKeyLength?
  dsimp only
  constructor
  · intro h
    split at h
    · next hkey =>
      obtain ⟨rest, rfl⟩ := List.isPrefixOf_iff_prefix.mp hkey
      rw [List.drop_left] at h
      split at h
      · next after hcolon =>
        cases h
        refine ⟨rest.takeWhile Json.isBlank, after, ?_, fun c => List.mem_takeWhile_imp, rfl⟩
        rw [drop_length_takeWhile] at hcolon
        rw [← hcolon, List.takeWhile_append_dropWhile]
      · cases h
    · cases h
  · rintro ⟨blanks, rest, rfl, hblanks, rfl⟩
    have htake : (blanks ++ ':' :: rest).takeWhile Json.isBlank = blanks := by
      rw [List.takeWhile_append_of_pos hblanks]
      exact List.append_nil blanks
    rw [if_pos (List.isPrefixOf_iff_prefix.mpr (List.prefix_append _ _)), List.drop_left, htake,
      List.drop_left]
    rfl

theorem not_tokensKey_nil (length : Nat) : ¬TokensKey [] length := by
  rintro ⟨blanks, rest, hnil, _⟩
  cases hnil

theorem tokensKeyEnd?_eq_some_iff {source : List Char} {stop : Nat} :
    tokensKeyEnd? source = some stop ↔ ∃ offset length,
      FirstAt (∃ n, TokensKey · n) source offset ∧ TokensKey (source.drop offset) length ∧
        stop = offset + length := by
  induction source generalizing stop with
  | nil =>
    constructor
    · rintro ⟨⟩
    · rintro ⟨offset, length, _, hkey, _⟩
      rw [List.drop_nil] at hkey
      exact absurd hkey (not_tokensKey_nil length)
  | cons c rest ih =>
    rw [tokensKeyEnd?]
    cases hhere : tokensKeyLength? (c :: rest) with
    | some n =>
      have hkey := tokensKeyLength?_eq_some_iff.mp hhere
      constructor
      · intro h
        obtain rfl := Option.some.inj h
        exact ⟨0, n, firstAt_cons.mpr (.inl ⟨⟨n, hkey⟩, rfl⟩), hkey, (Nat.zero_add n).symm⟩
      · rintro ⟨offset, length, hfirst, hlength, rfl⟩
        rcases firstAt_cons.mp hfirst with ⟨_, rfl⟩ | ⟨hnone, _⟩
        · have hsame := hhere.symm.trans (tokensKeyLength?_eq_some_iff.mpr hlength)
          rw [Option.some.inj hsame, Nat.zero_add]
        · exact absurd ⟨n, hkey⟩ hnone
    | none =>
      have hnone : ¬∃ n, TokensKey (c :: rest) n := by
        rintro ⟨n, hkey⟩
        cases hhere.symm.trans (tokensKeyLength?_eq_some_iff.mpr hkey)
      dsimp only
      rw [Option.map_eq_some_iff]
      constructor
      · rintro ⟨k, hk, rfl⟩
        obtain ⟨offset, length, hfirst, hkey, rfl⟩ := ih.mp hk
        exact ⟨offset + 1, length, firstAt_cons.mpr (.inr ⟨hnone, offset, hfirst, rfl⟩), hkey,
          by omega⟩
      · rintro ⟨offset, length, hfirst, hkey, rfl⟩
        obtain ⟨hsome, _⟩ | ⟨_, m, hm, rfl⟩ := firstAt_cons.mp hfirst
        · exact absurd hsome hnone
        · exact ⟨m + length, ih.mpr ⟨m, length, hm, hkey, rfl⟩, by omega⟩

theorem not_tokensKey_of_none {source : List Char} (h : tokensKeyEnd? source = none) (p n : Nat) :
    ¬TokensKey (source.drop p) n := by
  intro hkey
  obtain ⟨offset, hfirst⟩ := exists_firstAt (P := (∃ n, TokensKey · n)) ⟨n, hkey⟩
  obtain ⟨length, hlength⟩ := hfirst.1
  cases h.symm.trans (tokensKeyEnd?_eq_some_iff.mpr ⟨offset, length, hfirst, hlength, rfl⟩)

theorem searchStart_iff {source : List Char} {start : Nat} :
    SearchStart source start ↔ (tokensKeyEnd? source).getD 0 = start := by
  have hfound : (∃ offset length, TokensKey (source.drop offset) length ∧
      start = offset + length ∧ ∀ p < offset, ∀ n, ¬TokensKey (source.drop p) n) ↔
      tokensKeyEnd? source = some start := by
    rw [tokensKeyEnd?_eq_some_iff]
    constructor
    · rintro ⟨offset, length, hkey, hstart, hnone⟩
      have hfirst : FirstAt (∃ n, TokensKey · n) source offset :=
        ⟨⟨length, hkey⟩, fun p hp => not_exists.mpr (hnone p hp)⟩
      exact ⟨offset, length, hfirst, hkey, hstart⟩
    · rintro ⟨offset, length, hfirst, hkey, hstart⟩
      exact ⟨offset, length, hkey, hstart, fun p hp => not_exists.mp (hfirst.2 p hp)⟩
  unfold SearchStart
  rw [hfound]
  cases h : tokensKeyEnd? source with
  | some stop =>
    refine ⟨?_, fun hstop => .inl (congrArg some hstop)⟩
    rintro (hstop | ⟨hnone, _⟩)
    · exact Option.some.inj hstop
    · obtain ⟨offset, length, _, hkey, _⟩ := tokensKeyEnd?_eq_some_iff.mp h
      exact absurd hkey (hnone offset length)
  | none =>
    refine ⟨?_, fun hstart => .inr ⟨not_tokensKey_of_none h, hstart.symm⟩⟩
    rintro (⟨⟨⟩⟩ | ⟨_, rfl⟩)
    rfl

theorem foundFirst_iff {source needle : List Char} {start offset : Nat}
    (h : offset ≤ source.length) :
    Text.find? source needle start = some offset ↔ FoundFirst source needle start offset := by
  rw [Text.find?_eq_some_iff]
  exact ⟨fun ⟨hstart, _, hstands, hleast⟩ => ⟨hstart, hstands, hleast⟩,
    fun hfound => ⟨hfound.start_le, h, hfound.stands, hfound.least⟩⟩

/-! ## The mark -/

/-- A text between two quotes. -/
def quotedName (name : String) : List Char :=
  '"' :: (name.toList ++ ['"'])

/-- The diagnostic marks the text between the offsets. -/
structure Diagnostic.MarksText (d : Diagnostic) (source : List Char) (start stop : Nat) :
    Prop where
  start_eq : d.start = Position.ofOffset source start
  stop_eq : d.stop = Position.ofOffset source stop

section

variable {source : List Char} {p : Place} {name : String} {start stop : Nat} {e : PatternError}

theorem diagnostic_of_token (source : List Char) (htoken : e.token = some name) (hne : name ≠ "") :
    (e.diagnostic source).start =
        Text.positionOf source (quotedName name) ((tokensKeyEnd? source).getD 0) ∧
      (e.diagnostic source).stop = { (e.diagnostic source).start with
        character := (e.diagnostic source).start.character + (quotedName name).length } := by
  unfold PatternError.diagnostic
  rw [htoken]
  split
  · next hnone => cases hnone
  · next hempty => exact absurd (Option.some.inj hempty) hne
  · next hsome =>
    cases hsome
    exact ⟨rfl, rfl⟩

/-- A string that is written without escapes ends where its characters and quotes do. -/
theorem StringAt.stop_of_plain (h : StringAt source p name start stop)
    (hplain : quotedName name <+: source.drop start) :
    stop = start + (quotedName name).length ∧
      '\n' ∉ (source.drop start).take (quotedName name).length := by
  obtain ⟨body, hbody, hread⟩ := Json.string_of_reads h.reads
  obtain ⟨literal, hliteral, hstop, hline⟩ := h.exists_literal
  obtain ⟨more, hmore⟩ := hplain
  have hbody' : name.toList ++ '"' :: more = body := by
    rw [hbody] at hmore
    simpa [quotedName] using hmore
  rw [← hbody'] at hread
  rw [Json.rest_of_plain hread, ← hmore] at hliteral
  have hquoted : quotedName name = '"' :: literal := List.append_cancel_right hliteral
  rw [← hmore, List.take_left, hquoted]
  exact ⟨hstop, by simpa using hline⟩

/-- The name is marked just when the search finds it first. -/
theorem StringAt.marked_iff (h : StringAt source p name start stop) (htoken : e.token = some name)
    (hne : name ≠ "") : (e.diagnostic source).MarksText source start stop ↔
      ∃ k, SearchStart source k ∧ FoundFirst source (quotedName name) k start := by
  obtain ⟨hstart, hstop⟩ := diagnostic_of_token source htoken hne
  generalize hk : (tokensKeyEnd? source).getD 0 = k at hstart
  have hclamp : Text.clampStart source.length k = k := rfl
  unfold Text.positionOf at hstart
  rw [hclamp] at hstart
  constructor
  · rintro ⟨hmarked, _⟩
    refine ⟨k, searchStart_iff.mpr hk, ?_⟩
    rw [hstart] at hmarked
    split at hmarked
    · next offset hfind =>
      obtain ⟨_, hle, _⟩ := Text.find?_eq_some_iff.mp hfind
      obtain rfl := (Text.ofOffset_inj hle h.start_le).mp hmarked
      exact (foundFirst_iff hle).mp hfind
    · have hzero : Position.ofOffset source 0 = Position.ofOffset source start := hmarked
      have hpos := h.start_pos
      have hsame := (Text.ofOffset_inj (Nat.zero_le _) h.start_le).mp hzero
      omega
  · rintro ⟨k', hk', hfound⟩
    obtain rfl : k = k' := hk.symm.trans (searchStart_iff.mp hk')
    rw [(foundFirst_iff h.start_le).mpr hfound] at hstart
    obtain ⟨hlength, hline⟩ := h.stop_of_plain hfound.stands
    refine ⟨hstart, ?_⟩
    have hle := h.stop_le
    rw [hlength] at hle
    rw [hstop, hstart, hlength, Text.ofOffset_add hline hle]

end

/-! ## Warnings -/

/-- The token category at the index is the first one whose expression is refused. -/
structure FirstRefusedAt (g : LexicalGrammar) (index : Nat) (pragma : TokenPragma)
    (fault : PatternFault) : Prop where
  pragma_eq : g.tokens[index]? = some pragma
  refused : pragma.regex.pattern = .error fault
  earlier : ∀ j < index, ∀ other, g.tokens[j]? = some other →
    ∃ text, other.regex.pattern = .ok text

section

variable {uri source : String} {g : LexicalGrammar} {e : PatternError}

theorem exists_firstRefusedAt (h : FirstRefusal flexTranslator g.tokens e) :
    ∃ index pragma, FirstRefusedAt g index pragma e.fault ∧ e.token = some pragma.name := by
  obtain ⟨before, pragma, after, cause, hsplit, hbefore, hcause, rfl⟩ := h
  obtain ⟨fault, hfault, rfl⟩ := mapError_eq_error_iff.mp hcause
  refine ⟨before.length, pragma, ⟨?_, hfault, fun j hj other hother => ?_⟩, rfl⟩
  · rw [hsplit, List.getElem?_append_right (Nat.le_refl _), Nat.sub_self]
    rfl
  · rw [hsplit, List.getElem?_append_left hj] at hother
    obtain ⟨text, htext⟩ := hbefore other (List.mem_of_getElem? hother)
    exact ⟨text, mapError_eq_ok_iff.mp htext⟩

/-- The name of a token category stands in the document. -/
theorem exists_name {index : Nat} {pragma : TokenPragma} {filename : String}
    (h : LexicalGrammar.parse source filename = .ok g) (hpragma : g.tokens[index]? = some pragma) :
    ∃ start stop, StringAt source.toList (namePlace index) pragma.name start stop := by
  obtain ⟨document, hdecode, hjson⟩ := decode_of_parse h
  obtain ⟨fields, rfl, hfields⟩ := ofJson_eq_ok_iff.mp hjson
  obtain ⟨items, hitems, htokens⟩ := hfields.tokens
  obtain ⟨item, hitem, htoken⟩ := exists_source_at htokens hpragma
  obtain ⟨inner, node, rfl, hname, _⟩ := htoken
  rcases hitems with hlookup | ⟨_, rfl⟩
  · refine exists_stringAt hdecode ?_
    simp [namePlace, Place.named, Place.item, Place.field, Place.follow?, Place.Step.follow?,
      Json.field?, Json.item?, hlookup, hitem, hname]
  · cases hitem

theorem validate_of_refused (hparse : LexicalGrammar.parse source (fileNameOf uri) = .ok g)
    (hrefusal : FirstRefusal flexTranslator g.tokens e) :
    validate uri source = .ok [⟨uri, [e.diagnostic source.toList]⟩] := by
  obtain ⟨options, hvalidate⟩ := validate_of_loaded hparse
  rw [synthesize_eq_error_iff.mpr (tokenRules_eq_error_iff.mpr hrefusal)] at hvalidate
  exact hvalidate

end

/-- An editor warns of the first expression that is refused. The name of its token category is a
string in the document, on one line. The warning marks it just when the search for its quoted
characters, behind the first key `tokens`, finds it before any other. -/
theorem name_marked_iff {uri source : String} {g : LexicalGrammar} {options : GeneratorOptions}
    {e : PatternError} (hparse : LexicalGrammar.parse source (fileNameOf uri) = .ok g)
    (hfails : synthesize g options flexTranslator = .error e) :
    ∃ index pragma d start stop, FirstRefusedAt g index pragma e.fault ∧
      validate uri source = .ok [⟨uri, [d]⟩] ∧ d.severity = .warning ∧
      StringAt source.toList (namePlace index) pragma.name start stop ∧
      (∀ other start' stop', StringAt source.toList (namePlace index) other start' stop' →
        start' = start ∧ stop' = stop) ∧
      '\n' ∉ (source.toList.drop start).take (stop - start) ∧
      (d.MarksText source.toList start stop ↔ ∃ k, SearchStart source.toList k ∧
        FoundFirst source.toList (quotedName pragma.name) k start) := by
  have hrefusal := tokenRules_eq_error_iff.mp (synthesize_eq_error_iff.mp hfails)
  obtain ⟨index, pragma, hrefused, htoken⟩ := exists_firstRefusedAt hrefusal
  obtain ⟨start, stop, hname⟩ := exists_name hparse hrefused.pragma_eq
  have hne : pragma.name ≠ "" :=
    name_ne_empty_of_parse hparse pragma (List.mem_of_getElem? hrefused.pragma_eq)
  obtain ⟨literal, hliteral, hstop, hline⟩ := hname.exists_literal
  have hlength : stop - start = ('"' :: literal).length := by
    rw [hstop, Nat.add_sub_cancel_left, List.length_cons]
  refine ⟨index, pragma, e.diagnostic source.toList, start, stop, hrefused,
    validate_of_refused hparse hrefusal, severity_diagnostic source.toList, hname,
    fun _ _ _ h => hname.unique h, ?_, hname.marked_iff htoken hne⟩
  rw [hliteral, hlength, List.take_left]
  simpa using hline

/-- A document of one token category, the expression of which is refused. -/
def refusedDocument : String :=
  "\x7b\"tokens\":[\x7b\"name\":\"Nope\",\"regex\":[\"eps\"]\x7d]\x7d"

/-- No other string of the document is read as the name. -/
theorem start_of_refusedDocument {start stop : Nat}
    (h : StringAt refusedDocument.toList (namePlace 0) "Nope" start stop) : start = 19 := by
  have hothers : ∀ p ≤ refusedDocument.toList.length, p ≠ 19 →
      (refusedDocument.toList.drop p).head? = some '"' →
      (Json.stringAfterQuote (refusedDocument.toList.drop p).tail).toOption.map Prod.fst ≠
        some "Nope" := by
    decide +kernel
  by_contra hne
  obtain ⟨body, hbody, hread⟩ := Json.string_of_reads h.reads
  refine hothers start h.start_le hne (by rw [hbody]; rfl) ?_
  rw [hbody, List.tail_cons, hread]
  rfl

theorem name_marked_iff_plain : ∃ d start stop,
    validate "file:///g.json" refusedDocument = .ok [⟨"file:///g.json", [d]⟩] ∧
      StringAt refusedDocument.toList (namePlace 0) "Nope" start stop ∧
      d.MarksText refusedDocument.toList start stop := by
  have hparse : LexicalGrammar.parse refusedDocument (fileNameOf "file:///g.json") =
      .ok ⟨[], [], [], [⟨"Nope", .eps⟩], ⟨[], []⟩⟩ := by decide +kernel
  have hfails : synthesize ⟨[], [], [], [⟨"Nope", .eps⟩], ⟨[], []⟩⟩ { name := "g" }
      flexTranslator = .error ⟨.emptyExpression, some "Nope"⟩ := rfl
  obtain ⟨index, pragma, d, start, stop, hrefused, hvalidate, _, hname, _, _, hmarked⟩ :=
    name_marked_iff hparse hfails
  obtain ⟨rfl, rfl⟩ : index = 0 ∧ pragma = ⟨"Nope", .eps⟩ := by
    cases index with
    | zero => exact ⟨rfl, (Option.some.inj hrefused.pragma_eq).symm⟩
    | succ index => cases hrefused.pragma_eq
  refine ⟨d, start, stop, hvalidate, hname, hmarked.mpr ⟨10, ?_, ?_⟩⟩
  · exact searchStart_iff.mpr (by decide +kernel)
  · rw [← foundFirst_iff hname.start_le, start_of_refusedDocument hname]
    decide +kernel

/-! ### A name that is a key -/

/-- A token category that has the name of a key. -/
def keyNamed : String :=
  "\x7b\"tokens\":[\x7b\"name\":\"name\",\"regex\":[\"eps\"]\x7d]\x7d"

/-- What is left of the document from an offset on. -/
def keyNamedFrom (offset : Nat) : List Char :=
  keyNamed.toList.drop offset

/-- The name is the second of two strings that are the same. -/
theorem stringAt_keyNamed : StringAt keyNamed.toList (namePlace 0) "name" 19 25 := by
  have hname : Json.Reads (keyNamedFrom 19) (.string "name") (keyNamedFrom 25) := by
    have hbody : keyNamedFrom 19 = '"' :: keyNamedFrom 20 := by decide +kernel
    rw [hbody]
    exact Json.reads_string (by decide +kernel)
  obtain ⟨_, hregex⟩ : ∃ v, Json.Reads (keyNamedFrom 34) v (keyNamedFrom 41) :=
    Json.exists_reads (by decide +kernel)
  obtain ⟨_, hitem⟩ : ∃ v, Json.Reads (keyNamedFrom 11) v (keyNamedFrom 42) :=
    Json.exists_reads (by decide +kernel)
  obtain ⟨_, hitems⟩ : ∃ v, Json.Reads (keyNamedFrom 10) v (keyNamedFrom 43) :=
    Json.exists_reads (by decide +kernel)
  have htokens : Json.NamedText (keyNamedFrom 1) "tokens" (keyNamedFrom 10) :=
    ⟨keyNamedFrom 2, keyNamedFrom 9, keyNamedFrom 10, by decide +kernel, by decide +kernel,
      by decide +kernel, by decide +kernel⟩
  have hfirst : Json.NamedText (keyNamedFrom 12) "name" (keyNamedFrom 19) :=
    ⟨keyNamedFrom 13, keyNamedFrom 18, keyNamedFrom 19, by decide +kernel, by decide +kernel,
      by decide +kernel, by decide +kernel⟩
  have hsecond : Json.NamedText (keyNamedFrom 26) "regex" (keyNamedFrom 34) :=
    ⟨keyNamedFrom 27, keyNamedFrom 33, keyNamedFrom 34, by decide +kernel, by decide +kernel,
      by decide +kernel, by decide +kernel⟩
  have hdocument : Json.StepText (keyNamedFrom 0) (.field "tokens") (keyNamedFrom 10) :=
    .field (.last htokens hitems (by decide +kernel : _ = '}' :: [])) rfl
  have hlist : Json.StepText (keyNamedFrom 10) (.item 0) (keyNamedFrom 11) :=
    .item (.last hitem (by decide +kernel : _ = ']' :: keyNamedFrom 43)) rfl
  have htoken : Json.StepText (keyNamedFrom 11) (.field "name") (keyNamedFrom 19) :=
    .field (.cons hfirst hname (by decide +kernel : _ = ',' :: keyNamedFrom 26)
      (.last hsecond hregex (by decide +kernel : _ = '}' :: keyNamedFrom 42))) rfl
  have hblanks : Json.skipBlanks keyNamed.toList = keyNamedFrom 0 := by decide +kernel
  refine ⟨by decide +kernel, by decide +kernel, ?_, hname⟩
  rw [hblanks]
  exact ⟨_, hdocument, _, hlist, _, htoken, rfl⟩

/-- The warning marks the key, which is the first of them. -/
theorem key_marked : ∃ g d, LexicalGrammar.parse keyNamed (fileNameOf "file:///g.json") = .ok g ∧
    FirstRefusedAt g 0 ⟨"name", .eps⟩ .emptyExpression ∧
    validate "file:///g.json" keyNamed = .ok [⟨"file:///g.json", [d]⟩] ∧
    StringAt keyNamed.toList (namePlace 0) "name" 19 25 ∧
    d.MarksText keyNamed.toList 12 18 ∧ ¬d.MarksText keyNamed.toList 19 25 := by
  have hparse : LexicalGrammar.parse keyNamed (fileNameOf "file:///g.json") =
      .ok ⟨[], [], [], [⟨"name", .eps⟩], ⟨[], []⟩⟩ := by decide +kernel
  have hrefusal : FirstRefusal flexTranslator [⟨"name", .eps⟩] ⟨.emptyExpression, some "name"⟩ :=
    ⟨[], ⟨"name", .eps⟩, [], ⟨.emptyExpression, none⟩, rfl, by simp, rfl, rfl⟩
  refine ⟨_, _, hparse, ⟨rfl, rfl, by omega⟩, validate_of_refused hparse hrefusal,
    stringAt_keyNamed, ⟨by decide +kernel, by decide +kernel⟩, ?_⟩
  rintro ⟨hstart, _⟩
  exact absurd hstart (by decide +kernel)

end FlexSynth
