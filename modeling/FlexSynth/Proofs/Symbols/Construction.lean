import FlexSynth.Proofs.Symbols
import FlexSynth.Proofs.Text.Display

/-!
# How tables are made

A table is made from any list of entries in which neither a symbol nor an identifier stands
twice (`Distinct`). The check goes through the list once and remembers what it has seen; what it
reports is the first entry that repeats something (`FirstClash`), and of that entry the symbol
before the identifier. The invariant of the check is that what it has seen is distinct
(`clash?_spec`). A list has one first clash at most (`FirstClash.unique`), so the report is exact,
and its message says what is repeated (`Clash.message_inj`).

A table that has been made answers as its entries say (`Answers`). A keyword and a token
category are different symbols, even if they have the same text.
-/

namespace FlexSynth.SymbolTable

/-! ## Clashes -/

/-- Neither a symbol nor an identifier stands twice. -/
structure Distinct (entries : List (Symbol × String)) : Prop where
  symbols : (entries.map Prod.fst).Nodup
  identifiers : (entries.map Prod.snd).Nodup

/-- What an entry repeats of those before it. A repeated identifier counts only if the symbol is
new. -/
inductive Repeats (before : List (Symbol × String)) : Symbol × String → Clash → Prop
  | symbol {s : Symbol} {id : String} : s ∈ before.map Prod.fst → Repeats before (s, id) (.symbol s)
  | identifier {s : Symbol} {id : String} : s ∉ before.map Prod.fst → id ∈ before.map Prod.snd →
      Repeats before (s, id) (.identifier id)

/-- The clash of the first entry that repeats something. -/
def FirstClash (entries : List (Symbol × String)) (c : Clash) : Prop :=
  ∃ before entry after, entries = before ++ entry :: after ∧ Distinct before ∧
    Repeats before entry c

section

variable {seen before before' entries : List (Symbol × String)} {entry entry' : Symbol × String}
  {c d : Clash}

theorem Distinct.of_sublist (h : Distinct entries) (hsub : before.Sublist entries) :
    Distinct before where
  symbols := h.symbols.sublist (hsub.map Prod.fst)
  identifiers := h.identifiers.sublist (hsub.map Prod.snd)

theorem distinct_nil : Distinct [] :=
  ⟨List.nodup_nil, List.nodup_nil⟩

theorem distinct_append_singleton {s : Symbol} {id : String} :
    Distinct (seen ++ [(s, id)]) ↔
      Distinct seen ∧ s ∉ seen.map Prod.fst ∧ id ∉ seen.map Prod.snd := by
  constructor
  · intro h
    have hsymbols := h.symbols
    have hids := h.identifiers
    rw [List.map_append, List.map_singleton, List.nodup_append] at hsymbols hids
    exact ⟨h.of_sublist (List.sublist_append_left _ _),
      fun hs => hsymbols.2.2 s hs s List.mem_cons_self rfl,
      fun hid => hids.2.2 id hid id List.mem_cons_self rfl⟩
  · rintro ⟨h, hs, hid⟩
    constructor
    · rw [List.map_append, List.map_singleton]
      exact h.symbols.append (List.nodup_singleton s) (by simpa using hs)
    · rw [List.map_append, List.map_singleton]
      exact h.identifiers.append (List.nodup_singleton id) (by simpa using hid)

theorem Repeats.not_distinct (h : Repeats before entry c) : ¬Distinct (before ++ [entry]) := by
  obtain ⟨hs⟩ | ⟨_, hid⟩ := h
  · exact fun hdistinct => (distinct_append_singleton.mp hdistinct).2.1 hs
  · exact fun hdistinct => (distinct_append_singleton.mp hdistinct).2.2 hid

/-- An entry makes one clash at most. -/
theorem Repeats.unique (h : Repeats before entry c) (h' : Repeats before entry d) : c = d := by
  obtain ⟨hs⟩ | ⟨hs, _⟩ := h
  · obtain ⟨_⟩ | ⟨hs', _⟩ := h'
    · rfl
    · exact absurd hs hs'
  · obtain ⟨hs'⟩ | ⟨_, _⟩ := h'
    · exact absurd hs' hs
    · rfl

/-- An entry that repeats something stands before no entry whose predecessors are distinct. -/
theorem Repeats.eq_of_start (h : Repeats before entry c) (hdistinct : Distinct before')
    (hstart : before ++ [entry] <+: before' ++ [entry']) :
    before ++ [entry] = before' ++ [entry'] := by
  obtain hsame | hearlier := List.prefix_concat_iff.mp hstart
  · exact hsame
  · exact absurd (hdistinct.of_sublist hearlier.sublist) h.not_distinct

theorem FirstClash.not_distinct (h : FirstClash entries c) : ¬Distinct entries := by
  obtain ⟨before, entry, after, rfl, _, hrepeats⟩ := h
  intro hdistinct
  rw [List.append_cons] at hdistinct
  exact hrepeats.not_distinct (hdistinct.of_sublist (List.sublist_append_left _ _))

theorem FirstClash.unique (h : FirstClash entries c) (h' : FirstClash entries d) : c = d := by
  obtain ⟨before, entry, after, hsplit, hbefore, hrepeats⟩ := h
  obtain ⟨before', entry', after', hsplit', hbefore', hrepeats'⟩ := h'
  have hstart : before ++ [entry] <+: entries :=
    ⟨after, by rw [hsplit, List.append_assoc]; rfl⟩
  have hstart' : before' ++ [entry'] <+: entries :=
    ⟨after', by rw [hsplit', List.append_assoc]; rfl⟩
  have hsame : before ++ [entry] = before' ++ [entry'] := by
    obtain hle | hge := List.prefix_or_prefix_of_prefix hstart hstart'
    · exact hrepeats.eq_of_start hbefore' hle
    · exact (hrepeats'.eq_of_start hbefore hge).symm
  obtain ⟨rfl, hentry⟩ := List.append_inj' hsame rfl
  cases hentry
  exact hrepeats.unique hrepeats'

/-! ## The check -/

/-- The check finds the first clash, or there is none. -/
theorem clash?_spec (hseen : Distinct seen) :
    match clash? seen entries with
    | none => Distinct (seen ++ entries)
    | some c => FirstClash (seen ++ entries) c := by
  induction entries generalizing seen with
  | nil => simpa [clash?] using hseen
  | cons entry rest ih =>
    obtain ⟨s, id⟩ := entry
    by_cases hs : s ∈ seen.map Prod.fst
    · rw [clash?, if_pos hs]
      exact ⟨seen, (s, id), rest, rfl, hseen, .symbol hs⟩
    by_cases hid : id ∈ seen.map Prod.snd
    · rw [clash?, if_neg hs, if_pos hid]
      exact ⟨seen, (s, id), rest, rfl, hseen, .identifier hs hid⟩
    · have hnext := ih (distinct_append_singleton.mpr ⟨hseen, hs, hid⟩)
      rw [List.append_assoc, List.singleton_append] at hnext
      rw [clash?, if_neg hs, if_neg hid]
      exact hnext

/-- A list of entries is refused for its first clash, or a table is made of it. -/
theorem ofEntries_spec (entries : List (Symbol × String)) :
    (∃ c, ofEntries entries = .error c ∧ FirstClash entries c) ∨
      ofEntries entries = .ok ⟨entries⟩ ∧ Distinct entries := by
  have hspec : match clash? [] entries with
      | none => Distinct entries
      | some c => FirstClash entries c := clash?_spec distinct_nil
  unfold ofEntries
  cases hclash : clash? [] entries with
  | none =>
    rw [hclash] at hspec
    exact .inr ⟨rfl, hspec⟩
  | some c =>
    rw [hclash] at hspec
    exact .inl ⟨c, rfl, hspec⟩

theorem ofEntries_eq_error_iff : ofEntries entries = .error c ↔ FirstClash entries c := by
  obtain ⟨d, herror, hclash⟩ | ⟨hok, hdistinct⟩ := ofEntries_spec entries
  · rw [herror, Except.error.injEq]
    constructor
    · rintro rfl
      exact hclash
    · exact hclash.unique
  · rw [hok]
    exact iff_of_false nofun fun hclash => hclash.not_distinct hdistinct

theorem ofEntries_eq_ok_iff {t : SymbolTable} :
    ofEntries entries = .ok t ↔ t.entries = entries ∧ Distinct entries := by
  obtain ⟨c, herror, hclash⟩ | ⟨hok, hdistinct⟩ := ofEntries_spec entries
  · rw [herror]
    exact iff_of_false nofun fun h => hclash.not_distinct h.2
  · obtain ⟨checked⟩ := t
    rw [hok, Except.ok.injEq, mk.injEq, eq_comm]
    exact (and_iff_left hdistinct).symm

end

/-! ## What is reported -/

open Text (Wording)

def Clash.wording : Clash → Wording
  | .symbol (.keyword text) => ⟨"duplicate symbol Keyword(text=", some (text, ")")⟩
  | .symbol (.token name) => ⟨"duplicate symbol TokenCategory(name=", some (name, ")")⟩
  | .identifier id => ⟨"duplicate terminal identifier ", some (id, "")⟩

theorem Clash.text_wording (c : Clash) : c.wording.text = c.message := by
  have hsymbol (kind shown : String) : "duplicate symbol " ++ kind ++ shown ++ ")" =
      "duplicate symbol " ++ (kind ++ shown ++ ")") := by
    simp only [String.append_assoc]
  rcases c with (text | name) | id
  · exact hsymbol "Keyword(text=" (Text.display text)
  · exact hsymbol "TokenCategory(name=" (Text.display name)
  · exact String.append_empty

theorem Clash.unquoted_wording (c : Clash) : c.wording.Unquoted := by
  rcases c with (text | name) | id <;> simp [Wording.Unquoted, wording]

/-- The message tells what is repeated. -/
theorem Clash.message_inj {c d : Clash} (h : c.message = d.message) : c = d := by
  rw [← text_wording, ← text_wording] at h
  have hwording := Wording.text_inj c.unquoted_wording d.unquoted_wording h
  rcases c with (text | name) | id <;> rcases d with (text' | name') | id' <;>
    simp_all [wording]

/-! ## What a table answers -/

/-- What a table of some entries answers. -/
structure Answers (entries : List (Symbol × String)) (t : SymbolTable) : Prop where
  symbols : t.entries.map Prod.fst = entries.map Prod.fst
  size : t.size = entries.length
  listed : ∀ s id, t.find? s = some id ↔ (s, id) ∈ entries
  other : ∀ s, t.find? s = none ↔ s ∉ entries.map Prod.fst
  /-- A token category has the identifier that is listed for it. -/
  token : ∀ name id, (.token name, id) ∈ entries → t.tokenIdentifier name = id
  /-- A keyword of the same text is no token category. -/
  plain : ∀ name, .token name ∉ entries.map Prod.fst → t.tokenIdentifier name = name
  keywords : t.keywords.map (fun (text, id) => (.keyword text, id)) =
    entries.filter fun entry => entry.1.kind = "keyword"

/-- The keywords of a table are the entries that hold one, in order. -/
theorem map_keywords (t : SymbolTable) :
    t.keywords.map (fun (text, id) => (Symbol.keyword text, id)) =
      t.entries.filter fun entry => entry.1.kind = "keyword" := by
  unfold SymbolTable.keywords
  induction t.entries with
  | nil => rfl
  | cons entry rest ih =>
    obtain ⟨text | name, id⟩ := entry
    · rw [List.filterMap_cons, List.filter_cons_of_pos (by rfl), ← ih]
      rfl
    · rw [List.filterMap_cons, List.filter_cons_of_neg (by simp [Symbol.kind]), ← ih]

theorem answers_of_distinct {entries : List (Symbol × String)} (h : Distinct entries) :
    Answers entries ⟨entries⟩ := by
  have hlisted (s id) : find? ⟨entries⟩ s = some id ↔ (s, id) ∈ entries :=
    find?_eq_some_iff h.symbols
  have hother (s) : find? ⟨entries⟩ s = none ↔ s ∉ entries.map Prod.fst := by
    rw [Option.eq_none_iff_forall_not_mem, List.mem_map]
    constructor
    · rintro hnone ⟨⟨s, id⟩, hmem, rfl⟩
      exact hnone id ((hlisted s id).mpr hmem)
    · exact fun hs id hfound => hs ⟨(s, id), (hlisted s id).mp hfound, rfl⟩
  refine ⟨rfl, rfl, hlisted, hother, ?token, ?plain, map_keywords ⟨entries⟩⟩
  case token =>
    intro name id hmem
    rw [tokenIdentifier, (hlisted _ id).mpr hmem, Option.getD_some]
  case plain =>
    intro name hname
    rw [tokenIdentifier, (hother _).mpr hname, Option.getD_none]

/-- A list of entries is refused just when a symbol or an identifier stands twice in it, and for
its first clash, whose message no other clash has. All other lists make a table that answers as
they say, and two of these tables are equal just when their lists are. -/
theorem table_construction (entries : List (Symbol × String)) :
    ((∃ c, ofEntries entries = .error c) ↔ ¬Distinct entries) ∧
    (∀ c, ofEntries entries = .error c ↔ FirstClash entries c) ∧
    (∀ c d, ofEntries entries = .error c → d.message = c.message → FirstClash entries d) ∧
    ∀ t, ofEntries entries = .ok t → Answers entries t ∧
      ∀ entries' t', ofEntries entries' = .ok t' → (t = t' ↔ entries = entries') := by
  refine ⟨?refused, fun c => ofEntries_eq_error_iff, ?named, ?made⟩
  case refused =>
    obtain ⟨c, herror, hclash⟩ | ⟨hok, hdistinct⟩ := ofEntries_spec entries
    · exact iff_of_true ⟨c, herror⟩ hclash.not_distinct
    · rw [hok]
      exact iff_of_false nofun (not_not_intro hdistinct)
  case named =>
    intro c d herror hmessage
    rw [Clash.message_inj hmessage]
    exact ofEntries_eq_error_iff.mp herror
  case made =>
    rintro ⟨checked⟩ hok
    obtain ⟨rfl, hdistinct⟩ := ofEntries_eq_ok_iff.mp hok
    refine ⟨answers_of_distinct hdistinct, ?_⟩
    rintro entries' ⟨checked'⟩ hok'
    obtain ⟨rfl, _⟩ := ofEntries_eq_ok_iff.mp hok'
    rw [mk.injEq]

/-- A keyword and a token category of one text stand in one table. -/
theorem table_construction_same_text :
    let entries := [(.keyword "Hex", "A"), (.token "Hex", "B"), (.keyword "if", "C")]
    ofEntries entries = .ok ⟨entries⟩ ∧ Answers entries ⟨entries⟩ :=
  ⟨rfl, ((table_construction _).2.2.2 _ rfl).1⟩

end FlexSynth.SymbolTable
