import FlexSynth.Proofs.Json.Printed
import FlexSynth.Symbols

/-!
# The exported table

The file that a parser generator reads holds the table and nothing but the table: the reader of
grammar files, run on it, gives the entries in their order (`exported_decodes`). So no two
tables have one file. Nothing is asked of the symbols and the identifiers; quotes, control
characters and characters beyond U+FFFF pass through as they are.
-/

namespace FlexSynth.SymbolTable

open Json (IsAscii Plain isAscii_append isAscii_printAt)

theorem plain_entryJson (entry : Symbol × String) : (entryJson entry).Plain := by
  refine .object (by decide : ["kind", "symbol", "id"].Nodup) ?_
  simp only [List.forall_mem_cons]
  exact ⟨.string _, .string _, .string _, List.forall_mem_nil _⟩

theorem plain_toJson (t : SymbolTable) : t.toJson.Plain :=
  .array (List.forall_mem_map.mpr fun entry _ => plain_entryJson entry)

/-- The reader of grammar files finds the table in its file. -/
theorem decode_exported (t : SymbolTable) : Json.decode t.exported = .ok t.toJson :=
  Json.decode_print t.plain_toJson (by simp [Json.isBlank])

/-- The kind and the text make up the symbol. -/
theorem entryJson_injective : Function.Injective entryJson := by
  rintro ⟨s, id⟩ ⟨s', id'⟩ h
  simp only [entryJson, Json.object.injEq, List.cons.injEq, Prod.mk.injEq, Json.string.injEq,
    true_and, and_true] at h
  obtain ⟨hkind, htext, rfl⟩ := h
  have hkinds : "keyword" ≠ "token" := by decide
  have hsymbol : s = s' := by
    cases s with
    | keyword text =>
      cases s' with
      | keyword text' => exact congrArg Symbol.keyword htext
      | token name => exact absurd hkind hkinds
    | token name =>
      cases s' with
      | keyword text => exact absurd hkind.symm hkinds
      | token name' => exact congrArg Symbol.token htext
  rw [hsymbol]

theorem toJson_injective : Function.Injective toJson := by
  intro t other h
  have hentries : t.entries.map entryJson = other.entries.map entryJson := Json.array.inj h
  cases t
  cases other
  exact congrArg mk ((List.map_inj_right entryJson_injective).mp hentries)

theorem isAscii_exported (t : SymbolTable) : IsAscii t.exported.toList := by
  unfold exported Json.print
  rw [String.toList_append, String.toList_ofList, isAscii_append]
  exact ⟨isAscii_printAt t.plain_toJson 0, by decide⟩

end FlexSynth.SymbolTable

namespace FlexSynth

/-- A table is exported as lines of ASCII, from which the reader of grammar files gets the kind,
the text and the identifier of each entry, in order. Tables that differ are exported as texts
that differ. -/
theorem exported_decodes (t : SymbolTable) :
    (∀ c ∈ t.exported.toList, c.toNat < 0x80) ∧ (∃ text, t.exported = text ++ "\n") ∧
      Json.decode t.exported = .ok (.array (t.entries.map fun (s, id) =>
        .object [("kind", .string s.kind), ("symbol", .string s.text), ("id", .string id)])) ∧
      ∀ other : SymbolTable, other ≠ t → other.exported ≠ t.exported := by
  refine ⟨t.isAscii_exported, ⟨t.toJson.print, rfl⟩, t.decode_exported, ?_⟩
  intro other hne hsame
  have hdecoded : Json.decode other.exported = Json.decode t.exported := by rw [hsame]
  rw [other.decode_exported, t.decode_exported] at hdecoded
  exact hne (SymbolTable.toJson_injective (Except.ok.inj hdecoded))

/-- A clef beyond U+FFFF is written as two units. -/
example : (SymbolTable.mk [(.keyword "𝄞", "_SYMB_0")]).exported =
    "[\n  \x7b\n    \"kind\": \"keyword\",\n    \"symbol\": \"\\ud834\\udd1e\",\n" ++
      "    \"id\": \"_SYMB_0\"\n  \x7d\n]\n" := by
  decide +kernel

end FlexSynth
