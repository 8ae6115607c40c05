import FlexSynth.Grammar.Basic
import FlexSynth.Proofs.Text.Digits
import FlexSynth.Scanner.Rule
import FlexSynth.Symbols
import Mathlib.Data.List.Nodup

/-!
# Numbered symbol tables

`SymbolTable.number` makes a bijection. No symbol stands twice in the table, since
repeated names have been left out before the numbering, and no identifier does, since
an identifier shows its number (`identifier_injective`). So looking a symbol up finds
its one identifier (`find?_number_eq_some_iff`), and an identifier belongs to one
symbol (`symbol_unique`). No identifier is a built-in token either.
-/

namespace FlexSynth.SymbolTable

/-! ## Identifiers -/

theorem identifier_injective {m n : Nat} (h : identifier m = identifier n) : m = n := by
  unfold identifier at h
  exact Text.repr_inj ((String.append_right_inj "_SYMB_").mp h)

/-- Identifiers and built-in tokens differ in their first letters. -/
theorem identifier_not_mem_builtin (n : Nat) : identifier n ∉ BuiltinToken.all := by
  intro hmem
  have hprefix : "_SYMB_".toList <+: (identifier n).toList := by
    unfold identifier
    rw [String.toList_append]
    exact List.prefix_append _ _
  have hbuiltin : ∀ token ∈ BuiltinToken.all, ¬"_SYMB_".toList <+: token.toList := by decide
  exact hbuiltin _ hmem hprefix

/-! ## Symbols -/

theorem nodup_eraseDups {α : Type} [DecidableEq α] (xs : List α) : xs.eraseDups.Nodup := by
  -- What follows is filtered before it is searched, so it is no part of the list.
  induction hlength : xs.length using Nat.strongRecOn generalizing xs with
  | ind n ih =>
    cases xs with
    | nil => exact List.nodup_nil
    | cons x xs =>
      rw [List.eraseDups_cons, List.nodup_cons, List.mem_eraseDups, List.mem_filter]
      constructor
      · simp
      · have hshorter : (xs.filter fun y => !y == x).length < n := by
          rw [← hlength, List.length_cons]
          exact Nat.lt_succ_of_le (List.length_filter_le _ xs)
        exact ih _ hshorter _ rfl

theorem mem_symbolsOf {keywords tokenNames : List String} {s : Symbol} :
    s ∈ symbolsOf keywords tokenNames ↔
      (∃ text ∈ keywords, s = .keyword text) ∨ ∃ name ∈ tokenNames, s = .token name := by
  unfold symbolsOf
  simp only [List.mem_append, List.mem_map, List.mem_eraseDups, eq_comm]

theorem nodup_symbolsOf (keywords tokenNames : List String) :
    (symbolsOf keywords tokenNames).Nodup := by
  unfold symbolsOf
  rw [List.nodup_append]
  refine ⟨?_, ?_, ?_⟩
  · exact (nodup_eraseDups keywords).map fun _ _ => Symbol.keyword.inj
  · exact (nodup_eraseDups tokenNames).map fun _ _ => Symbol.token.inj
  · intro s hs t ht
    obtain ⟨text, _, rfl⟩ := List.mem_map.mp hs
    obtain ⟨name, _, rfl⟩ := List.mem_map.mp ht
    exact Symbol.noConfusion

/-! ## Entries -/

/-- The identifiers of a table, in order. -/
def identifiers (t : SymbolTable) : List String :=
  t.entries.map Prod.snd

section

variable {keywords tokenNames : List String} {s : Symbol} {id : String}

theorem mem_number_iff : (s, id) ∈ (number keywords tokenNames).entries ↔
    ∃ n, (symbolsOf keywords tokenNames)[n]? = some s ∧ id = identifier n := by
  unfold number
  rw [List.mem_map]
  constructor
  · rintro ⟨⟨s', n⟩, hmem, hsame⟩
    cases hsame
    exact ⟨n, List.mk_mem_zipIdx_iff_getElem?.mp hmem, rfl⟩
  · rintro ⟨n, hn, rfl⟩
    exact ⟨(s, n), List.mk_mem_zipIdx_iff_getElem?.mpr hn, rfl⟩

/-- The numbered symbols are those of the language, in order. -/
theorem map_fst_number : (number keywords tokenNames).entries.map Prod.fst =
    symbolsOf keywords tokenNames := by
  unfold number
  rw [List.map_map]
  exact List.zipIdx_map_fst 0 _

theorem identifiers_number : (number keywords tokenNames).identifiers =
    (List.range (symbolsOf keywords tokenNames).length).map identifier := by
  unfold identifiers number
  rw [List.map_map, List.range_eq_range', ← List.zipIdx_map_snd 0 (symbolsOf keywords tokenNames),
    List.map_map]
  rfl

theorem nodup_identifiers : (number keywords tokenNames).identifiers.Nodup := by
  rw [identifiers_number]
  exact List.nodup_range.map fun _ _ => identifier_injective

theorem not_mem_builtin_of_mem (h : id ∈ (number keywords tokenNames).identifiers) :
    id ∉ BuiltinToken.all := by
  rw [identifiers_number, List.mem_map] at h
  obtain ⟨n, _, rfl⟩ := h
  exact identifier_not_mem_builtin n

theorem mem_identifiers {t : SymbolTable} : id ∈ t.identifiers ↔ ∃ s, (s, id) ∈ t.entries := by
  unfold identifiers
  rw [List.mem_map]
  constructor
  · rintro ⟨⟨s, id⟩, hmem, rfl⟩
    exact ⟨s, hmem⟩
  · rintro ⟨s, hmem⟩
    exact ⟨(s, id), hmem, rfl⟩

/-- An identifier belongs to one symbol. -/
theorem symbol_unique {s' : Symbol} (h : (s, id) ∈ (number keywords tokenNames).entries)
    (h' : (s', id) ∈ (number keywords tokenNames).entries) : s = s' := by
  obtain ⟨n, hn, rfl⟩ := mem_number_iff.mp h
  obtain ⟨n', hn', hsame⟩ := mem_number_iff.mp h'
  rw [identifier_injective hsame, hn'] at hn
  exact (Option.some.inj hn).symm

/-- When no symbol stands twice in a table, looking one up finds its entry. -/
theorem find?_eq_some_iff {t : SymbolTable} (h : (t.entries.map Prod.fst).Nodup) :
    t.find? s = some id ↔ (s, id) ∈ t.entries := by
  unfold find?
  rw [List.lookup_eq_some_iff]
  constructor
  · rintro ⟨before, rest, hsplit, _⟩
    rw [hsplit]
    exact List.mem_append_right _ List.mem_cons_self
  · intro hmem
    obtain ⟨before, rest, hsplit⟩ := List.append_of_mem hmem
    refine ⟨before, rest, hsplit, ?_⟩
    intro entry hentry
    -- The symbol stands once in the table, so it does not stand before this entry.
    rw [hsplit, List.map_append, List.map_cons, List.nodup_append] at h
    have hne := h.2.2 entry.1 (List.mem_map_of_mem hentry) s List.mem_cons_self
    exact bne_iff_ne.mpr hne.symm

theorem find?_number_eq_some_iff : (number keywords tokenNames).find? s = some id ↔
    (s, id) ∈ (number keywords tokenNames).entries :=
  find?_eq_some_iff (map_fst_number ▸ nodup_symbolsOf keywords tokenNames)

theorem mem_keywords {t : SymbolTable} {text : String} :
    (text, id) ∈ t.keywords ↔ (.keyword text, id) ∈ t.entries := by
  unfold SymbolTable.keywords
  rw [List.mem_filterMap]
  constructor
  · rintro ⟨⟨s, id'⟩, hmem, hsome⟩
    cases s with
    | keyword text' =>
      cases hsome
      exact hmem
    | token name => cases hsome
  · intro hmem
    exact ⟨(.keyword text, id), hmem, rfl⟩

theorem nodup_keywords : (number keywords tokenNames).keywords.Nodup := by
  have hentries : (number keywords tokenNames).entries.Nodup :=
    List.Nodup.of_map Prod.snd nodup_identifiers
  refine hentries.filterMap ?_
  rintro ⟨s, id⟩ ⟨s', id'⟩ keyword h h'
  cases s with
  | token _ => cases h
  | keyword _ =>
    cases s' with
    | token _ => cases h'
    | keyword _ =>
      cases h
      cases h'
      rfl

/-- Every symbol of the language has an identifier. -/
theorem exists_identifier (h : s ∈ symbolsOf keywords tokenNames) :
    ∃ id, (s, id) ∈ (number keywords tokenNames).entries := by
  obtain ⟨n, hn⟩ := List.mem_iff_getElem?.mp h
  exact ⟨identifier n, mem_number_iff.mpr ⟨n, hn, rfl⟩⟩

theorem mem_symbolsOf_of_mem (h : (s, id) ∈ (number keywords tokenNames).entries) :
    s ∈ symbolsOf keywords tokenNames := by
  obtain ⟨n, hn, _⟩ := mem_number_iff.mp h
  exact List.mem_of_getElem? hn

end

end FlexSynth.SymbolTable
