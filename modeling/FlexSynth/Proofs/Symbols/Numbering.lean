import FlexSynth.Proofs.Symbols.Construction
import FlexSynth.Scanner.Synthesis
import Mathlib.Data.List.Induction

/-!
# How terminals are numbered

`SymbolTable.number` puts the keywords first and the token categories after them, each at its
first place, and counts (`terminals_numbered`). Its entries pass the checks of `ofEntries`, so a
table that is made through these checks is never refused. A text that is declared again leaves
no trace: without the repetition there are the same table and the same scanner. And a new token
category leaves all earlier identifiers as they are, so the two sides of a grammar can be made
at different times.

What "at its first place" means is said by `FirstOccurrences` without a look at how repetitions
are left out. It leaves one possible list (`FirstOccurrences.unique`).
-/

namespace FlexSynth

/-! ## First occurrences -/

section

variable {α : Type} [DecidableEq α] {xs ys zs : List α}

/-- The second list holds the elements of the first one, ordered by their first places there. -/
structure FirstOccurrences (xs ys : List α) : Prop where
  mem_iff : ∀ a, a ∈ ys ↔ a ∈ xs
  ordered : ys.Pairwise fun a b => xs.idxOf a < xs.idxOf b

theorem FirstOccurrences.nodup (h : FirstOccurrences xs ys) : ys.Nodup := by
  refine h.ordered.imp ?_
  rintro a b hlt rfl
  exact Nat.lt_irrefl _ hlt

theorem FirstOccurrences.unique (h : FirstOccurrences xs ys) (h' : FirstOccurrences xs zs) :
    ys = zs := by
  have hperm : ys.Perm zs := (List.perm_ext_iff_of_nodup h.nodup h'.nodup).mpr fun a =>
    (h.mem_iff a).trans (h'.mem_iff a).symm
  exact hperm.eq_of_pairwise (fun a b _ _ hab hba => absurd hba (Nat.lt_asymm hab)) h.ordered
    h'.ordered

/-- Leaving out what has been there before keeps the first occurrences. -/
theorem firstOccurrences_eraseDups (xs : List α) : FirstOccurrences xs xs.eraseDups where
  mem_iff := fun a => List.mem_eraseDups
  ordered := by
    -- An element at the end is new or makes no difference.
    induction xs using List.reverseRecOn with
    | nil => exact .nil
    | append_singleton xs x ih =>
      have hearlier {a : α} (ha : a ∈ xs.eraseDups) : (xs ++ [x]).idxOf a = xs.idxOf a :=
        List.idxOf_append_of_mem (List.mem_eraseDups.mp ha)
      rw [List.eraseDups_append, List.pairwise_append]
      refine ⟨?earlier, ?last, ?between⟩
      case earlier =>
        refine ih.imp_of_mem ?_
        intro a b ha hb hlt
        rwa [hearlier ha, hearlier hb]
      case last =>
        by_cases hx : x ∈ xs <;> simp [List.removeAll, List.eraseDups_cons, hx]
      case between =>
        intro a ha b hb
        have hnew : b ∈ [x] ∧ b ∉ xs := by simpa [List.removeAll] using hb
        rw [hearlier ha, List.idxOf_append, if_neg hnew.2]
        have hplace := List.idxOf_lt_length_iff.mpr (List.mem_eraseDups.mp ha)
        exact Nat.lt_of_lt_of_le hplace (Nat.le_add_left _ _)

theorem eraseDups_of_nodup (h : xs.Nodup) : xs.eraseDups = xs := by
  induction xs with
  | nil => rfl
  | cons x xs ih =>
    obtain ⟨hx, hxs⟩ := List.nodup_cons.mp h
    have hfilter : xs.filter (fun y => !y == x) = xs := by
      rw [List.filter_eq_self]
      rintro y hy
      simpa using ne_of_mem_of_not_mem hy hx
    rw [List.eraseDups_cons, hfilter, ih hxs]

/-- First occurrences have the same first occurrences. -/
theorem FirstOccurrences.eraseDups_eq (h : FirstOccurrences xs ys) :
    ys.eraseDups = xs.eraseDups := by
  rw [eraseDups_of_nodup h.nodup]
  exact h.unique (firstOccurrences_eraseDups xs)

end

namespace SymbolTable

/-! ## Numbering -/

section

variable {keywords tokenNames : List String}

/-- Numbered entries pass the checks. -/
theorem ofEntries_number :
    ofEntries (number keywords tokenNames).entries = .ok (number keywords tokenNames) := by
  refine ofEntries_eq_ok_iff.mpr ⟨rfl, ?_, nodup_identifiers⟩
  rw [map_fst_number]
  exact nodup_symbolsOf keywords tokenNames

theorem size_number :
    (number keywords tokenNames).size = (symbolsOf keywords tokenNames).length := by
  rw [size, ← map_fst_number, List.length_map]

/-- New token categories come after all symbols that there have been. -/
theorem symbolsOf_append (more : List String) :
    symbolsOf keywords tokenNames <+: symbolsOf keywords (tokenNames ++ more) := by
  unfold symbolsOf
  rw [List.eraseDups_append, List.map_append, ← List.append_assoc]
  exact List.prefix_append _ _

theorem entries_number_append (more : List String) :
    (number keywords tokenNames).entries <+: (number keywords (tokenNames ++ more)).entries := by
  have hsymbols : symbolsOf keywords tokenNames <+: symbolsOf keywords (tokenNames ++ more) :=
    symbolsOf_append more
  obtain ⟨later, hlater⟩ := hsymbols
  unfold number
  rw [← hlater, List.zipIdx_append, List.map_append]
  exact List.prefix_append _ _

/-- Keywords count by their first occurrences only. -/
theorem number_of_firstOccurrences {keywords' : List String}
    (h : FirstOccurrences keywords keywords') :
    number keywords' tokenNames = number keywords tokenNames := by
  unfold number symbolsOf
  rw [h.eraseDups_eq]

/-- What the number of a terminal is. -/
structure Numbers (keywords tokenNames : List String) (t : SymbolTable) : Prop where
  /-- The entries pass the checks of a table. -/
  accepted : ofEntries t.entries = .ok t
  /-- The keywords come first, then the token categories, each at its first occurrence. -/
  symbols : ∃ texts names, FirstOccurrences keywords texts ∧ FirstOccurrences tokenNames names ∧
    t.entries.map Prod.fst = texts.map .keyword ++ names.map .token
  /-- The identifier of a symbol shows its place. -/
  identifiers : t.identifiers = (List.range t.size).map fun n => "_SYMB_" ++ toString n
  distinct : t.identifiers.Nodup
  not_builtin : ∀ id ∈ t.identifiers, id ∉ BuiltinToken.all

theorem numbers_number : Numbers keywords tokenNames (number keywords tokenNames) where
  accepted := ofEntries_number
  symbols := ⟨keywords.eraseDups, tokenNames.eraseDups, firstOccurrences_eraseDups keywords,
    firstOccurrences_eraseDups tokenNames, map_fst_number⟩
  identifiers := by
    rw [size_number, identifiers_number]
    rfl
  distinct := nodup_identifiers
  not_builtin := fun _ => not_mem_builtin_of_mem

end

end SymbolTable

/-! ## Repeated keywords -/

section

variable {g : LexicalGrammar} {symbols reserved : List String}

theorem symbolTable_of_firstOccurrences
    (h : FirstOccurrences g.keywords (symbols ++ reserved)) :
    { g with symbols, reserved }.symbolTable = g.symbolTable :=
  SymbolTable.number_of_firstOccurrences h

/-- The keywords of a grammar reach its scanner through the symbol table only. -/
theorem synthesize_of_firstOccurrences (h : FirstOccurrences g.keywords (symbols ++ reserved))
    (options : GeneratorOptions) (translate : Translator) :
    synthesize { g with symbols, reserved } options translate =
      synthesize g options translate := by
  unfold synthesize ruleGroups
  rw [symbolTable_of_firstOccurrences h]
  rfl

end

/-- Terminals are numbered in order of their first occurrence, keywords first; no list of names
makes the table fail its checks. New token categories change no earlier entry. Leaving out the
later repetitions of keywords, wherever the rest is declared, changes neither the table nor the
scanner, from which the generated text is rendered. -/
theorem terminals_numbered (keywords tokenNames : List String) :
    SymbolTable.Numbers keywords tokenNames (.number keywords tokenNames) ∧
    (∀ more, (SymbolTable.number keywords tokenNames).entries <+:
      (SymbolTable.number keywords (tokenNames ++ more)).entries) ∧
    ∀ (g : LexicalGrammar) (symbols reserved : List String),
      FirstOccurrences g.keywords (symbols ++ reserved) →
        { g with symbols, reserved }.symbolTable = g.symbolTable ∧
        ∀ options translate, synthesize { g with symbols, reserved } options translate =
          synthesize g options translate :=
  ⟨SymbolTable.numbers_number, SymbolTable.entries_number_append, fun _ _ _ h =>
    ⟨symbolTable_of_firstOccurrences h, synthesize_of_firstOccurrences h⟩⟩

end FlexSynth
