import FlexSynth.Proofs.Json.Strings
import Mathlib.Data.List.Induction
import Mathlib.Data.List.TakeWhile

/-!
# Values, written and read

A value that is written is read back (`decode_print`), if it holds no number and no object of it
has a name twice (`Plain`). The blanks between its parts are skipped, and every part is read
with what follows it left over (`value_printAt`). The bound on the recursion is no obstacle, as
it counts characters and every part has one of its own.
-/

namespace FlexSynth.Json

/-! ## Plain values -/

/-- A value without numbers, in which every name stands once in its object. -/
inductive Plain : Json → Prop
  | null : Plain .null
  | bool (b : Bool) : Plain (.bool b)
  | string (text : String) : Plain (.string text)
  | array {items : List Json} : (∀ item ∈ items, Plain item) → Plain (.array items)
  | object {fields : List (String × Json)} : (fields.map Prod.fst).Nodup →
      (∀ field ∈ fields, Plain field.2) → Plain (.object fields)

theorem putField_of_not_mem {name : String} {v : Json} {fields : List (String × Json)}
    (h : name ∉ fields.map Prod.fst) : putField name v fields = fields ++ [(name, v)] := by
  induction fields with
  | nil => rfl
  | cons field fields ih =>
    rw [List.map_cons, List.mem_cons, not_or] at h
    rw [putField, if_neg (Ne.symm h.1), ih h.2, List.cons_append]

/-- Without repeated names, no value takes the place of another. -/
theorem fieldsOf_of_nodup {pairs : List (String × Json)} (h : (pairs.map Prod.fst).Nodup) :
    fieldsOf pairs = pairs := by
  induction pairs using List.reverseRecOn with
  | nil => rfl
  | append_singleton pairs pair ih =>
    obtain ⟨name, v⟩ := pair
    rw [List.map_append, List.map_singleton, List.nodup_append] at h
    have hnew : name ∉ pairs.map Prod.fst := fun hmem =>
      h.2.2 name hmem name (List.mem_singleton_self _) rfl
    unfold fieldsOf at ih ⊢
    rw [List.foldl_append, ih h.1, List.foldl_cons, List.foldl_nil]
    exact putField_of_not_mem hnew

/-! ## Beginnings -/

/-- The characters that plain values start with. -/
def openers : List Char :=
  ['n', 't', 'f', '"', '[', '{']

theorem of_mem_openers {c : Char} (h : c ∈ openers) :
    isBlank c = false ∧ c ≠ ']' ∧ c ≠ '\ufeff' := by
  simp only [openers, List.mem_cons, List.not_mem_nil, or_false] at h
  rcases h with rfl | rfl | rfl | rfl | rfl | rfl <;> decide

theorem exists_opener {v : Json} (h : v.Plain) (depth : Nat) :
    ∃ c cs, printAt depth v = c :: cs ∧ c ∈ openers := by
  cases h with
  | null => exact ⟨_, _, rfl, by decide⟩
  | bool b => cases b <;> exact ⟨_, _, rfl, by decide⟩
  | string text => exact ⟨_, _, rfl, by decide⟩
  | @array items _ => cases items <;> exact ⟨_, _, rfl, by decide⟩
  | @object fields _ _ => cases fields <;> exact ⟨_, _, rfl, by decide⟩

theorem skipBlanks_cons {c : Char} (h : isBlank c = false) (cs : List Char) :
    skipBlanks (c :: cs) = c :: cs :=
  List.dropWhile_cons_of_neg (by simp [h])

theorem skipBlanks_newLine (depth : Nat) (cs : List Char) :
    skipBlanks (newLine depth ++ cs) = skipBlanks cs := by
  have hblanks : ∀ c ∈ newLine depth, isBlank c = true := by
    intro c hc
    rcases List.mem_cons.mp hc with rfl | hc
    · rfl
    · rw [(List.mem_replicate.mp hc).2]
      rfl
  exact List.dropWhile_append_of_pos hblanks

/-- The blanks before a value end at the value. -/
theorem skipBlanks_printAt {v : Json} (h : v.Plain) (depth : Nat) (rest : List Char) :
    skipBlanks (printAt depth v ++ rest) = printAt depth v ++ rest := by
  obtain ⟨c, cs, hprint, hc⟩ := exists_opener h depth
  rw [hprint, List.cons_append, skipBlanks_cons (of_mem_openers hc).1]

/-! ## Parts -/

/-- A value is read back with any bound that the characters allow. -/
def ReadsBack (v : Json) : Prop :=
  ∀ bound depth rest, 2 * (printAt depth v ++ rest).length < bound →
    value bound (printAt depth v ++ rest) = .ok (v, rest)

section

variable {α : Type} {close : Char} {depth bound outer : Nat} {v : Json} {name : String}
  {cs rest : List Char}

theorem bracketed_close (hblank : isBlank close = false)
    (inner : List Char → Except Stop (Reading (List α))) :
    bracketed close inner (close :: rest) = .ok ([], rest) := by
  unfold bracketed
  rw [skipBlanks_cons hblank]
  exact if_pos rfl

theorem bracketed_open {c : Char} (hblank : isBlank c = false) (hclose : c ≠ close)
    (inner : List Char → Except Stop (Reading (List α))) :
    bracketed close inner (newLine outer ++ c :: cs) = inner (c :: cs) := by
  unfold bracketed
  rw [skipBlanks_newLine, skipBlanks_cons hblank]
  exact if_neg hclose

theorem bracketed_printAt (hplain : v.Plain)
    (inner : List Char → Except Stop (Reading (List α))) :
    bracketed ']' inner (newLine outer ++ (printAt depth v ++ cs)) =
      inner (printAt depth v ++ cs) := by
  obtain ⟨c, more, hprint, hc⟩ := exists_opener hplain depth
  rw [hprint]
  exact bracketed_open (of_mem_openers hc).1 (of_mem_openers hc).2.1 inner

theorem listed_close (hblank : isBlank close = false) (item : α)
    (more : List Char → Except Stop (Reading (List α))) :
    listed close item more (newLine depth ++ close :: rest) = .ok ([item], rest) := by
  unfold listed
  rw [skipBlanks_newLine, skipBlanks_cons hblank]
  exact if_pos rfl

theorem listed_comma (hclose : ',' ≠ close) (item : α)
    {more : List Char → Except Stop (Reading (List α))} {others : List α}
    (h : more (skipBlanks cs) = .ok (others, rest)) :
    listed close item more (',' :: (newLine depth ++ cs)) = .ok (item :: others, rest) := by
  unfold listed
  rw [skipBlanks_cons (by decide)]
  dsimp only
  rw [if_neg hclose, if_pos rfl, skipBlanks_newLine, h]
  rfl

/-- An item is read, and then what is left of its list. -/
theorem items_printAt (hv : v.ReadsBack) (hbound : 2 * (printAt depth v ++ cs).length < bound) :
    items (bound + 1) (printAt depth v ++ cs) = listed ']' v (items bound) cs := by
  rw [items, hv bound depth cs hbound]
  rfl

/-- A field is read, and then what is left of its object. -/
theorem fields_printString (hplain : v.Plain) (hv : v.ReadsBack)
    (hbound : 2 * (printAt depth v ++ cs).length < bound) :
    fields (bound + 1) (printString name ++ ':' :: ' ' :: (printAt depth v ++ cs)) =
      listed '}' (name, v) (fields bound) cs := by
  have hcolon : afterColon (value bound) (':' :: ' ' :: (printAt depth v ++ cs)) = .ok (v, cs) := by
    have hblank : skipBlanks (' ' :: (printAt depth v ++ cs)) = printAt depth v ++ cs :=
      skipBlanks_printAt hplain depth cs
    unfold afterColon
    rw [skipBlanks_cons (by decide)]
    dsimp only
    rw [if_pos rfl, hblank, hv bound depth cs hbound]
  unfold printString
  rw [List.cons_append, List.append_assoc, List.singleton_append, fields, stringAfterQuote_flatMap]
  dsimp only [bind, Except.bind]
  rw [hcolon]

/-- The items after one that has been read, and the closing bracket. -/
theorem listed_printItems {others : List Json} (hplain : ∀ v ∈ others, v.Plain)
    (hothers : ∀ v ∈ others, v.ReadsBack)
    (hbound : 2 * (printItems depth others ++ (newLine outer ++ ']' :: rest)).length < bound) :
    listed ']' v (items bound) (printItems depth others ++ (newLine outer ++ ']' :: rest)) =
      .ok (v :: others, rest) := by
  induction others generalizing v bound with
  | nil => exact listed_close (by decide) v (items bound)
  | cons next others ih =>
    rw [List.forall_mem_cons] at hplain hothers
    rw [printItems] at hbound ⊢
    simp only [List.cons_append, List.append_assoc] at hbound ⊢
    refine listed_comma (by decide) v ?_
    rw [skipBlanks_printAt hplain.1]
    cases bound with
    | zero => exact absurd hbound (Nat.not_lt_zero _)
    | succ bound =>
      simp only [List.length_cons, List.length_append] at hbound
      rw [items_printAt hothers.1 (by simp; omega)]
      exact ih hplain.2 hothers.2 (by simp; omega)

/-- The fields after one that has been read, and the closing brace. -/
theorem listed_printFields {others : List (String × Json)}
    (hplain : ∀ field ∈ others, field.2.Plain) (hothers : ∀ field ∈ others, field.2.ReadsBack)
    (hbound : 2 * (printFields depth others ++ (newLine outer ++ '}' :: rest)).length < bound) :
    listed '}' (name, v) (fields bound)
        (printFields depth others ++ (newLine outer ++ '}' :: rest)) =
      .ok ((name, v) :: others, rest) := by
  induction others generalizing name v bound with
  | nil => exact listed_close (by decide) (name, v) (fields bound)
  | cons next others ih =>
    obtain ⟨nextName, next⟩ := next
    rw [List.forall_mem_cons] at hplain hothers
    rw [printFields] at hbound ⊢
    simp only [List.cons_append, List.append_assoc] at hbound ⊢
    refine listed_comma (by decide) (name, v) ?_
    have hquote (cs : List Char) : skipBlanks (printString nextName ++ cs) =
        printString nextName ++ cs := skipBlanks_cons (by decide) _
    rw [hquote]
    cases bound with
    | zero => exact absurd hbound (Nat.not_lt_zero _)
    | succ bound =>
      simp only [List.length_cons, List.length_append] at hbound
      rw [fields_printString hplain.1 hothers.1 (by simp; omega)]
      exact ih hplain.2 hothers.2 (by simp; omega)

end

/-! ## Values -/

/-- The bound is never used up at the start of a value. -/
theorem readsBack_of_succ {v : Json}
    (h : ∀ bound depth rest, 2 * (printAt depth v ++ rest).length ≤ bound →
      value (bound + 1) (printAt depth v ++ rest) = .ok (v, rest)) : v.ReadsBack := by
  intro bound depth rest hbound
  cases bound with
  | zero => exact absurd hbound (Nat.not_lt_zero _)
  | succ bound => exact h bound depth rest (Nat.le_of_lt_succ hbound)

/-- A word is read as its value. -/
theorem readsBack_word {v : Json} {word : List Char} (hprint : ∀ depth, printAt depth v = word)
    (hword : ∀ bound rest, value (bound + 1) (word ++ rest) = .ok (v, rest)) : v.ReadsBack := by
  refine readsBack_of_succ fun bound depth rest _ => ?_
  rw [hprint]
  exact hword bound rest

theorem readsBack_string (text : String) : (string text).ReadsBack := by
  refine readsBack_of_succ fun bound depth rest _ => ?_
  rw [printAt, printString, List.cons_append, List.append_assoc, List.singleton_append, value,
    stringAfterQuote_flatMap]
  rfl

theorem readsBack_array {items : List Json} (hplain : ∀ item ∈ items, item.Plain)
    (hitems : ∀ item ∈ items, item.ReadsBack) : (array items).ReadsBack := by
  refine readsBack_of_succ fun bound depth rest hbound => ?_
  cases items with
  | nil =>
    show value (bound + 1) ('[' :: ']' :: rest) = _
    rw [value, bracketed_close (by decide)]
    rfl
  | cons item others =>
    rw [List.forall_mem_cons] at hplain hitems
    rw [printAt] at hbound ⊢
    simp only [List.cons_append, List.append_assoc, List.nil_append] at hbound ⊢
    simp only [List.length_cons, List.length_append] at hbound
    rw [value, bracketed_printAt hplain.1]
    cases bound with
    | zero => omega
    | succ bound =>
      rw [items_printAt hitems.1 (by simp; omega),
        listed_printItems hplain.2 hitems.2 (by simp; omega)]
      rfl

theorem readsBack_object {fields : List (String × Json)} (hnodup : (fields.map Prod.fst).Nodup)
    (hplain : ∀ field ∈ fields, field.2.Plain) (hfields : ∀ field ∈ fields, field.2.ReadsBack) :
    (object fields).ReadsBack := by
  refine readsBack_of_succ fun bound depth rest hbound => ?_
  cases fields with
  | nil =>
    show value (bound + 1) ('{' :: '}' :: rest) = _
    rw [value, bracketed_close (by decide)]
    rfl
  | cons field others =>
    obtain ⟨name, v⟩ := field
    rw [List.forall_mem_cons] at hplain hfields
    rw [printAt] at hbound ⊢
    simp only [List.cons_append, List.append_assoc, List.nil_append] at hbound ⊢
    simp only [List.length_cons, List.length_append] at hbound
    have hquote (cs : List Char) :
        bracketed '}' (Json.fields bound) (newLine (depth + 1) ++ (printString name ++ cs)) =
          Json.fields bound (printString name ++ cs) :=
      bracketed_open (by decide) (by decide) (Json.fields bound)
    rw [value, hquote]
    cases bound with
    | zero => omega
    | succ bound =>
      rw [fields_printString hplain.1 hfields.1 (by simp; omega),
        listed_printFields hplain.2 hfields.2 (by simp; omega)]
      dsimp only [bind, Except.bind, pure, Except.pure]
      rw [fieldsOf_of_nodup hnodup]

theorem value_printAt {v : Json} (h : v.Plain) : v.ReadsBack := by
  induction h with
  | null => exact readsBack_word (fun _ => rfl) fun _ _ => rfl
  | bool b => cases b <;> exact readsBack_word (fun _ => rfl) fun _ _ => rfl
  | string text => exact readsBack_string text
  | array hplain ih => exact readsBack_array hplain ih
  | object hnodup hplain ih => exact readsBack_object hnodup hplain ih

/-- A value that is written is read back, with or without blanks after it. -/
theorem decode_print {v : Json} (h : v.Plain) {blanks : String}
    (hblanks : ∀ c ∈ blanks.toList, isBlank c = true) : decode (v.print ++ blanks) = .ok v := by
  obtain ⟨c, cs, hprint, hc⟩ := exists_opener h 0
  have hhead : (printAt 0 v ++ blanks.toList).head? ≠ some '\ufeff' := by
    rw [hprint]
    exact fun hsame => (of_mem_openers hc).2.2 (Option.some.inj hsame)
  have hrest : skipBlanks blanks.toList = [] := List.dropWhile_eq_nil_iff.mpr hblanks
  have hvalue : value (2 * (printAt 0 v ++ blanks.toList).length + 2)
      (printAt 0 v ++ blanks.toList) = .ok (v, blanks.toList) :=
    value_printAt h _ 0 blanks.toList (by omega)
  have hdocument : document (printAt 0 v ++ blanks.toList) = .ok v := by
    unfold document
    rw [if_neg hhead, skipBlanks_printAt h, hvalue]
    dsimp only [bind, Except.bind, pure, Except.pure]
    rw [hrest]
  unfold decode print
  rw [String.toList_append, String.toList_ofList]
  dsimp only
  rw [hdocument]

/-! ## ASCII -/

theorem isAscii_newLine (depth : Nat) : IsAscii (newLine depth) := by
  refine isAscii_cons.mpr ⟨by decide, ?_⟩
  intro c hc
  rw [(List.mem_replicate.mp hc).2]
  decide

theorem isAscii_printItems {items : List Json} {depth : Nat}
    (h : ∀ item ∈ items, IsAscii (printAt depth item)) : IsAscii (printItems depth items) := by
  induction items with
  | nil => exact List.forall_mem_nil _
  | cons item items ih =>
    rw [List.forall_mem_cons] at h
    rw [printItems, isAscii_cons, isAscii_append, isAscii_append]
    exact ⟨by decide, ⟨isAscii_newLine depth, h.1⟩, ih h.2⟩

theorem isAscii_printFields {fields : List (String × Json)} {depth : Nat}
    (h : ∀ field ∈ fields, IsAscii (printAt depth field.2)) :
    IsAscii (printFields depth fields) := by
  induction fields with
  | nil => exact List.forall_mem_nil _
  | cons field fields ih =>
    rw [List.forall_mem_cons] at h
    simp only [printFields, isAscii_cons, isAscii_append]
    exact ⟨by decide, ⟨⟨isAscii_newLine depth, isAscii_printString field.1⟩, by decide, by decide,
      h.1⟩, ih h.2⟩

/-- What is written of a value is ASCII. -/
theorem isAscii_printAt {v : Json} (h : v.Plain) (depth : Nat) : IsAscii (printAt depth v) := by
  induction h generalizing depth with
  | null => exact (by decide : IsAscii "null".toList)
  | bool b =>
    cases b with
    | false => exact (by decide : IsAscii "false".toList)
    | true => exact (by decide : IsAscii "true".toList)
  | string text => exact isAscii_printString text
  | @array items _ ih =>
    cases items with
    | nil => exact (by decide : IsAscii ['[', ']'])
    | cons item items =>
      rw [List.forall_mem_cons] at ih
      simp only [printAt, isAscii_cons, isAscii_append]
      exact ⟨by decide, ⟨⟨⟨isAscii_newLine _, ih.1 _⟩,
        isAscii_printItems fun item hitem => ih.2 item hitem _⟩, isAscii_newLine _⟩, by decide,
        List.forall_mem_nil _⟩
  | @object fields _ _ ih =>
    cases fields with
    | nil => exact (by decide : IsAscii ['{', '}'])
    | cons field fields =>
      rw [List.forall_mem_cons] at ih
      simp only [printAt, isAscii_cons, isAscii_append]
      exact ⟨by decide, ⟨⟨⟨⟨isAscii_newLine _, isAscii_printString field.1⟩, by decide, by decide,
        ih.1 _⟩, isAscii_printFields fun field hfield => ih.2 field hfield _⟩, isAscii_newLine _⟩,
        by decide, List.forall_mem_nil _⟩

end FlexSynth.Json
