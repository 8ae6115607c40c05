import FlexSynth.Grammar.Place
import FlexSynth.Proofs.Json.Depth
import FlexSynth.Proofs.Partial
import Mathlib.Data.List.Induction

/-!
# The texts of values

A value at a place of a document is written at a place of the text. `PathText` finds it in the
text alone: an item where the items before it have been read, a field where its name stands for
the last time. Whatever the steps lead to in the value, they lead to a text that is read as it
(`exists_pathText`), and to no other text (`PathText.unique`).
-/

namespace FlexSynth.Json

open Partial

/-! ## Values -/

/-- `Reads cs v rest`: the value is read from the front of the characters, and the rest is
left. -/
def Reads (cs : List Char) (v : Json) (rest : List Char) : Prop :=
  value (2 * cs.length + 1) cs = .ok (v, rest)

section

variable {cs rest rest' : List Char} {v v' : Json} {depth : Nat}

theorem Reads.unique (h : Reads cs v rest) (h' : Reads cs v' rest') : v = v' ∧ rest = rest' := by
  have hsame := Except.ok.inj (h.symm.trans h')
  exact ⟨congrArg Prod.fst hsame, congrArg Prod.snd hsame⟩

theorem reads_of_value (h : value depth cs = .ok (v, rest)) (hdepth : 2 * cs.length < depth) :
    Reads cs v rest :=
  (value_depth (Nat.lt_succ_self _) hdepth).trans h

theorem reads_string {text : String} (h : stringAfterQuote cs = .ok (text, rest)) :
    Reads ('"' :: cs) (.string text) rest := by
  unfold Reads
  rw [value, h]
  rfl

theorem exists_reads (h : (value (2 * cs.length + 1) cs).map Prod.snd = .ok rest) :
    ∃ v, Reads cs v rest := by
  cases hread : value (2 * cs.length + 1) cs with
  | error =>
    rw [hread] at h
    cases h
  | ok found =>
    rw [hread] at h
    cases h
    exact ⟨found.1, hread⟩

theorem Reads.suffix (h : Reads cs v rest) : rest <:+ cs :=
  (leaves_values _).1 cs v rest h

end

/-! ## Items and fields -/

/-- Items stand at the front of the characters, up to a closing bracket, and start at these
texts. -/
inductive ItemTexts : List Char → List (List Char) → Prop
  | last {cs after rest : List Char} {v : Json} : Reads cs v after →
      skipBlanks after = ']' :: rest → ItemTexts cs [cs]
  | cons {cs after rest : List Char} {v : Json} {texts : List (List Char)} : Reads cs v after →
      skipBlanks after = ',' :: rest → ItemTexts (skipBlanks rest) texts →
      ItemTexts cs (cs :: texts)

/-- A name and a colon stand at the front of the characters, and then the text. -/
def NamedText (cs : List Char) (name : String) (text : List Char) : Prop :=
  ∃ body after rest, cs = '"' :: body ∧ stringAfterQuote body = .ok (name, after) ∧
    skipBlanks after = ':' :: rest ∧ text = skipBlanks rest

/-- Fields stand at the front of the characters, up to a closing brace, and their values start
at these texts. -/
inductive FieldTexts : List Char → List (String × List Char) → Prop
  | last {cs text after rest : List Char} {name : String} {v : Json} : NamedText cs name text →
      Reads text v after → skipBlanks after = '}' :: rest → FieldTexts cs [(name, text)]
  | cons {cs text after rest : List Char} {name : String} {v : Json}
      {texts : List (String × List Char)} : NamedText cs name text → Reads text v after →
      skipBlanks after = ',' :: rest → FieldTexts (skipBlanks rest) texts →
      FieldTexts cs ((name, text) :: texts)

/-- The text of what a step leads to, from the text of a value. Of two fields of one name the
later one counts. -/
inductive StepText : List Char → Place.Step → List Char → Prop
  | item {body text : List Char} {texts : List (List Char)} {index : Nat} :
      ItemTexts (skipBlanks body) texts → texts[index]? = some text →
      StepText ('[' :: body) (.item index) text
  | field {body text : List Char} {texts : List (String × List Char)} {name : String} :
      FieldTexts (skipBlanks body) texts → texts.reverse.lookup name = some text →
      StepText ('{' :: body) (.field name) text

/-- The text of what the steps lead to. -/
def PathText (cs : List Char) : List Place.Step → List Char → Prop
  | [], text => text = cs
  | step :: steps, text => ∃ inner, StepText cs step inner ∧ PathText inner steps text

/-! ### One text -/

theorem ItemTexts.unique {cs : List Char} {texts texts' : List (List Char)}
    (h : ItemTexts cs texts) (h' : ItemTexts cs texts') : texts = texts' := by
  induction h generalizing texts' with
  | last hv hclose =>
    cases h' with
    | last => rfl
    | cons hv' hcomma _ =>
      obtain ⟨_, rfl⟩ := hv.unique hv'
      rw [hclose] at hcomma
      cases hcomma
  | cons hv hcomma _ ih =>
    cases h' with
    | last hv' hclose =>
      obtain ⟨_, rfl⟩ := hv.unique hv'
      rw [hclose] at hcomma
      cases hcomma
    | cons hv' hcomma' hmore =>
      obtain ⟨_, rfl⟩ := hv.unique hv'
      rw [hcomma] at hcomma'
      cases hcomma'
      rw [ih hmore]

theorem NamedText.unique {cs text text' : List Char} {name name' : String}
    (h : NamedText cs name text) (h' : NamedText cs name' text') : name = name' ∧ text = text' := by
  obtain ⟨body, after, rest, rfl, hname, hcolon, rfl⟩ := h
  obtain ⟨_, _, _, ⟨⟩, hname', hcolon', rfl⟩ := h'
  cases Except.ok.inj (hname.symm.trans hname')
  cases hcolon.symm.trans hcolon'
  exact ⟨rfl, rfl⟩

theorem FieldTexts.unique {cs : List Char} {texts texts' : List (String × List Char)}
    (h : FieldTexts cs texts) (h' : FieldTexts cs texts') : texts = texts' := by
  induction h generalizing texts' with
  | last hname hv hclose =>
    cases h' with
    | last hname' =>
      obtain ⟨rfl, rfl⟩ := hname.unique hname'
      rfl
    | cons hname' hv' hcomma _ =>
      obtain ⟨rfl, rfl⟩ := hname.unique hname'
      obtain ⟨_, rfl⟩ := hv.unique hv'
      rw [hclose] at hcomma
      cases hcomma
  | cons hname hv hcomma _ ih =>
    cases h' with
    | last hname' hv' hclose =>
      obtain ⟨rfl, rfl⟩ := hname.unique hname'
      obtain ⟨_, rfl⟩ := hv.unique hv'
      rw [hclose] at hcomma
      cases hcomma
    | cons hname' hv' hcomma' hmore =>
      obtain ⟨rfl, rfl⟩ := hname.unique hname'
      obtain ⟨_, rfl⟩ := hv.unique hv'
      rw [hcomma] at hcomma'
      cases hcomma'
      rw [ih hmore]

theorem StepText.unique {cs text text' : List Char} {step : Place.Step}
    (h : StepText cs step text) (h' : StepText cs step text') : text = text' := by
  cases h with
  | item htexts hget =>
    cases h' with
    | item htexts' hget' =>
      rw [htexts.unique htexts', hget'] at hget
      exact (Option.some.inj hget).symm
  | field htexts hget =>
    cases h' with
    | field htexts' hget' =>
      rw [htexts.unique htexts', hget'] at hget
      exact (Option.some.inj hget).symm

theorem PathText.unique {cs text text' : List Char} {steps : List Place.Step}
    (h : PathText cs steps text) (h' : PathText cs steps text') : text = text' := by
  induction steps generalizing cs with
  | nil => exact h.trans h'.symm
  | cons step steps ih =>
    obtain ⟨inner, hstep, h⟩ := h
    obtain ⟨inner', hstep', h'⟩ := h'
    obtain rfl := hstep.unique hstep'
    exact ih h h'

/-! ### Readers taken apart -/

section

variable {α : Type} {close : Char} {inner : List Char → Except Stop (Reading (List α))}
  {cs rest : List Char} {all : List α}

theorem bracketed_eq_ok (h : bracketed close inner cs = .ok (all, rest)) :
    all = [] ∨ inner (skipBlanks cs) = .ok (all, rest) := by
  unfold bracketed at h
  split at h
  · next hcs => exact .inr (hcs ▸ h)
  · next hcs =>
    split at h
    · cases h
      exact .inl rfl
    · exact .inr (hcs ▸ h)

theorem listed_eq_ok {item : α} (h : listed close item inner cs = .ok (all, rest)) :
    skipBlanks cs = close :: rest ∧ all = [item] ∨
      ∃ after others, skipBlanks cs = ',' :: after ∧
        inner (skipBlanks after) = .ok (others, rest) ∧ all = item :: others := by
  unfold listed at h
  split at h
  · cases h
  · next c after hcs =>
    split at h
    · next hclose =>
      cases h
      exact .inl ⟨hclose ▸ hcs, rfl⟩
    · split at h
      · next hcomma =>
        obtain ⟨⟨others, more⟩, hothers, h⟩ := bind_eq_ok_iff.mp h
        cases h
        exact .inr ⟨after, others, hcomma ▸ hcs, hothers, rfl⟩
      · cases h

theorem afterColon_eq_ok {β : Type} {inner : List Char → Except Stop (Reading β)}
    {found : Reading β} (h : afterColon inner cs = .ok found) :
    ∃ after, skipBlanks cs = ':' :: after ∧ inner (skipBlanks after) = .ok found := by
  unfold afterColon at h
  split at h
  · cases h
  · next c after hcs =>
    split at h
    · next hcolon => exact ⟨after, hcolon ▸ hcs, h⟩
    · cases h

end

/-- What is read without an opening character is no string, no list and no object. -/
theorem scalar_eq_ok {cs rest : List Char} {v : Json} (h : scalar cs = .ok (v, rest)) :
    v = .null ∨ (∃ b, v = .bool b) ∨ ∃ lexeme, v = .number lexeme := by
  unfold scalar at h
  split at h
  · next found hword =>
    cases h
    obtain ⟨⟨word, value⟩, hmem, hfound⟩ := List.exists_of_findSome?_eq_some hword
    obtain ⟨after, _, hpair⟩ := Option.map_eq_some_iff.mp hfound
    cases hpair
    simp only [words, List.mem_cons, Prod.mk.injEq, List.not_mem_nil, or_false] at hmem
    rcases hmem with ⟨_, rfl⟩ | ⟨_, rfl⟩ | ⟨_, rfl⟩ | ⟨_, rfl⟩ | ⟨_, rfl⟩ | ⟨_, rfl⟩ <;> simp
  · split at h
    · cases h
    · split at h <;> cases h
      exact .inr (.inr ⟨_, rfl⟩)

/-- What a value can be read as, and from which character on. -/
inductive ValueRead (depth : Nat) : List Char → Json → List Char → Prop
  | string {body rest : List Char} {text : String} : stringAfterQuote body = .ok (text, rest) →
      ValueRead depth ('"' :: body) (.string text) rest
  | array {body rest : List Char} {vs : List Json} :
      bracketed ']' (items depth) body = .ok (vs, rest) →
      ValueRead depth ('[' :: body) (.array vs) rest
  | object {body rest : List Char} {pairs : List (String × Json)} :
      bracketed '}' (fields depth) body = .ok (pairs, rest) →
      ValueRead depth ('{' :: body) (.object (fieldsOf pairs)) rest
  | scalar {cs rest : List Char} {v : Json} :
      v = .null ∨ (∃ b, v = .bool b) ∨ (∃ lexeme, v = .number lexeme) → ValueRead depth cs v rest

theorem valueRead {depth : Nat} {cs rest : List Char} {v : Json}
    (h : value (depth + 1) cs = .ok (v, rest)) : ValueRead depth cs v rest := by
  rw [value.eq_def] at h
  dsimp only at h
  split at h
  · obtain ⟨_, htext, h⟩ := bind_eq_ok_iff.mp h
    cases h
    exact .string htext
  · obtain ⟨_, hitems, h⟩ := bind_eq_ok_iff.mp h
    cases h
    exact .array hitems
  · obtain ⟨_, hpairs, h⟩ := bind_eq_ok_iff.mp h
    cases h
    exact .object hpairs
  · exact .scalar (scalar_eq_ok h)

/-! ### Texts of what has been read -/

/-- The text is an end of the characters, and the value is read from it. -/
def TextOf (cs text : List Char) (v : Json) : Prop :=
  text <:+ cs ∧ ∃ rest, Reads text v rest

theorem TextOf.mono {cs ds text : List Char} {v : Json} (h : TextOf ds text v) (hds : ds <:+ cs) :
    TextOf cs text v :=
  ⟨h.1.trans hds, h.2⟩

/-- What follows a comma behind a value is shorter than the value with what follows it. -/
theorem Reads.length_lt {cs after more : List Char} {v : Json} {c : Char} (h : Reads cs v after)
    (hmore : skipBlanks after = c :: more) : (skipBlanks more).length < cs.length := by
  have hcons : (c :: more) <:+ cs := hmore ▸ (skipBlanks_suffix after).trans h.suffix
  have hblanks := length_skipBlanks more
  exact Nat.lt_of_le_of_lt hblanks hcons.length_le

theorem Reads.suffix_of_skipBlanks {cs after more : List Char} {v : Json} {c : Char}
    (h : Reads cs v after) (hmore : skipBlanks after = c :: more) : skipBlanks more <:+ cs :=
  ((skipBlanks_suffix more).trans (Json.suffix_of_skipBlanks hmore)).trans h.suffix

theorem exists_itemTexts {depth : Nat} {cs rest : List Char} {vs : List Json}
    (h : items depth cs = .ok (vs, rest)) (hdepth : 2 * cs.length + 1 < depth) :
    ∃ texts, ItemTexts cs texts ∧ List.Forall₂ (TextOf cs) texts vs := by
  induction depth generalizing cs vs rest with
  | zero => omega
  | succ depth ih =>
    rw [items] at h
    obtain ⟨⟨item, after⟩, hitem, h⟩ := bind_eq_ok_iff.mp h
    have hreads : Reads cs item after := reads_of_value hitem (by omega)
    have htext : TextOf cs cs item := ⟨List.suffix_rfl, after, hreads⟩
    rcases listed_eq_ok h with ⟨hclose, rfl⟩ | ⟨more, others, hcomma, hothers, rfl⟩
    · exact ⟨[cs], .last hreads hclose, .cons htext .nil⟩
    · have hshorter := hreads.length_lt hcomma
      obtain ⟨texts, htexts, hall⟩ := ih hothers (by omega)
      exact ⟨cs :: texts, .cons hreads hcomma htexts, .cons htext
        (hall.imp fun _ _ hone => hone.mono (hreads.suffix_of_skipBlanks hcomma))⟩

theorem NamedText.suffix {cs text : List Char} {name : String} (h : NamedText cs name text) :
    text <:+ cs := by
  obtain ⟨body, after, rest, rfl, hname, hcolon, rfl⟩ := h
  have hafter : after <:+ '"' :: body :=
    (leaves_stringAfterQuote body _ _ hname).trans (List.suffix_cons _ _)
  exact ((skipBlanks_suffix rest).trans (Json.suffix_of_skipBlanks hcolon)).trans hafter

theorem NamedText.length_lt {cs text : List Char} {name : String} (h : NamedText cs name text) :
    text.length < cs.length := by
  obtain ⟨body, after, rest, rfl, hname, hcolon, rfl⟩ := h
  have hafter := (leaves_stringAfterQuote body _ _ hname).length_le
  have hrest := (Json.suffix_of_skipBlanks hcolon).length_le
  have hblanks := length_skipBlanks rest
  rw [List.length_cons]
  omega

theorem exists_fieldTexts {depth : Nat} {cs rest : List Char} {pairs : List (String × Json)}
    (h : fields depth cs = .ok (pairs, rest)) (hdepth : 2 * cs.length + 1 < depth) :
    ∃ texts, FieldTexts cs texts ∧
      List.Forall₂ (fun text pair => text.1 = pair.1 ∧ TextOf cs text.2 pair.2) texts pairs := by
  induction depth generalizing cs pairs rest with
  | zero => omega
  | succ depth ih =>
    rw [fields.eq_def] at h
    dsimp only at h
    split at h
    · next body =>
      obtain ⟨⟨name, named⟩, hname, h⟩ := bind_eq_ok_iff.mp h
      obtain ⟨⟨item, after⟩, hitem, h⟩ := bind_eq_ok_iff.mp h
      obtain ⟨colon, hcolon, hitem⟩ := afterColon_eq_ok hitem
      have hnamed : NamedText ('"' :: body) name (skipBlanks colon) :=
        ⟨body, named, colon, rfl, hname, hcolon, rfl⟩
      have hlt := hnamed.length_lt
      have hreads : Reads (skipBlanks colon) item after := reads_of_value hitem (by omega)
      have htext : TextOf ('"' :: body) (skipBlanks colon) item := ⟨hnamed.suffix, after, hreads⟩
      rcases listed_eq_ok h with ⟨hclose, rfl⟩ | ⟨more, others, hcomma, hothers, rfl⟩
      · exact ⟨_, .last hnamed hreads hclose, .cons ⟨rfl, htext⟩ .nil⟩
      · have hshorter := hreads.length_lt hcomma
        have hsuffix := (hreads.suffix_of_skipBlanks hcomma).trans hnamed.suffix
        obtain ⟨texts, htexts, hall⟩ := ih hothers (by omega)
        exact ⟨_, .cons hnamed hreads hcomma htexts, .cons ⟨rfl, htext⟩
          (hall.imp fun _ _ hone => ⟨hone.1, hone.2.mono hsuffix⟩)⟩
    · cases h

/-! ### Fields of objects -/

theorem lookup_cons_eq_ite {α : Type} (name key : String) (a : α) (rest : List (String × α)) :
    ((key, a) :: rest).lookup name = if name = key then some a else rest.lookup name := by
  by_cases hname : name = key
  · rw [if_pos hname, hname, List.lookup_cons_self]
  · rw [if_neg hname, List.lookup_cons, beq_false_of_ne hname]

theorem lookup_putField (name key : String) (v : Json) (fs : List (String × Json)) :
    (putField key v fs).lookup name = if name = key then some v else fs.lookup name := by
  induction fs with
  | nil => rw [putField, lookup_cons_eq_ite]
  | cons first fs ih =>
    obtain ⟨n, w⟩ := first
    rw [putField, lookup_cons_eq_ite]
    by_cases hkey : n = key
    · rw [if_pos hkey, lookup_cons_eq_ite, hkey]
      split <;> rfl
    · rw [if_neg hkey, lookup_cons_eq_ite, ih]
      by_cases hname : name = n
      · rw [if_pos hname, if_pos hname, if_neg (hname ▸ hkey)]
      · rw [if_neg hname, if_neg hname]

/-- Of the pairs of an object, the last one of a name counts. -/
theorem lookup_fieldsOf (name : String) (pairs : List (String × Json)) :
    (fieldsOf pairs).lookup name = pairs.reverse.lookup name := by
  induction pairs using List.reverseRecOn with
  | nil => rfl
  | append_singleton pairs pair ih =>
    obtain ⟨key, v⟩ := pair
    have hput : fieldsOf (pairs ++ [(key, v)]) = putField key v (fieldsOf pairs) := by
      unfold fieldsOf
      rw [List.foldl_append]
      rfl
    rw [hput, lookup_putField, ih, List.reverse_append, List.reverse_singleton,
      List.singleton_append, lookup_cons_eq_ite]

theorem exists_lookup {α β : Type} {R : α → β → Prop} {as : List (String × α)}
    {bs : List (String × β)} {name : String} {b : β}
    (h : List.Forall₂ (fun a b => a.1 = b.1 ∧ R a.2 b.2) as bs) (hb : bs.lookup name = some b) :
    ∃ a, as.lookup name = some a ∧ R a b := by
  induction h with
  | nil => cases hb
  | @cons a first as bs hfirst _ ih =>
    rw [List.lookup_cons] at hb
    rw [List.lookup_cons, hfirst.1]
    split at hb
    · cases hb
      exact ⟨a.2, rfl, hfirst.2⟩
    · exact ih hb

/-! ### Texts of places -/

section

variable {cs rest : List Char} {v w : Json}

/-- What a step leads to in a value that has been read has been read from a text of its own. -/
theorem exists_stepText {step : Place.Step} (h : Reads cs v rest)
    (hstep : step.follow? v = some w) : ∃ text, StepText cs step text ∧ TextOf cs text w := by
  cases step with
  | item index =>
    cases v with
    | array vs =>
      cases valueRead h with
      | @array body _ _ hitems =>
        have hblanks := length_skipBlanks body
        rcases bracketed_eq_ok hitems with rfl | hitems
        · cases hstep
        obtain ⟨texts, htexts, hall⟩ := exists_itemTexts hitems (by rw [List.length_cons]; omega)
        obtain ⟨text, htext, hof⟩ := exists_source_at hall hstep
        exact ⟨text, .item htexts htext,
          hof.mono ((skipBlanks_suffix body).trans (List.suffix_cons _ body))⟩
      | scalar hscalar => simp at hscalar
    | _ => cases hstep
  | field name =>
    cases v with
    | object fs =>
      cases valueRead h with
      | @object body _ pairs hfields =>
        have hblanks := length_skipBlanks body
        replace hstep : pairs.reverse.lookup name = some w := by
          rw [← lookup_fieldsOf]
          exact hstep
        rcases bracketed_eq_ok hfields with rfl | hfields
        · cases hstep
        obtain ⟨texts, htexts, hall⟩ := exists_fieldTexts hfields (by rw [List.length_cons]; omega)
        obtain ⟨text, htext, hof⟩ := exists_lookup (List.rel_reverse hall) hstep
        exact ⟨text, .field htexts htext,
          hof.mono ((skipBlanks_suffix body).trans (List.suffix_cons _ body))⟩
      | scalar hscalar => simp at hscalar
    | _ => cases hstep

theorem exists_pathText {steps : List Place.Step} (h : Reads cs v rest)
    (hsteps : steps.foldlM Place.Step.follow? v = some w) :
    ∃ text, PathText cs steps text ∧ TextOf cs text w := by
  induction steps generalizing cs v rest with
  | nil =>
    cases hsteps
    exact ⟨cs, rfl, List.suffix_rfl, rest, h⟩
  | cons step steps ih =>
    obtain ⟨inner, hstep, hsteps⟩ := Option.bind_eq_some_iff.mp hsteps
    obtain ⟨text, htext, hsuffix, after, hinner⟩ := exists_stepText h hstep
    obtain ⟨last, hlast, hof⟩ := ih hinner hsteps
    exact ⟨last, ⟨text, htext, hlast⟩, hof.mono hsuffix⟩

end

theorem string_of_reads {cs rest : List Char} {text : String} (h : Reads cs (.string text) rest) :
    ∃ body, cs = '"' :: body ∧ stringAfterQuote body = .ok (text, rest) := by
  cases cs with
  | nil => cases h
  | cons c cs =>
    cases valueRead h with
    | string htext => exact ⟨_, rfl, htext⟩
    | scalar hscalar => simp at hscalar

/-- A document is read from its text behind the first blanks. -/
theorem exists_reads_of_decode {source : String} {v : Json} (h : decode source = .ok v) :
    ∃ rest, Reads (skipBlanks source.toList) v rest := by
  have hblanks := length_skipBlanks source.toList
  unfold decode at h
  dsimp only at h
  split at h
  · next hdocument =>
    cases h
    unfold document at hdocument
    split at hdocument
    · cases hdocument
    · obtain ⟨⟨v', rest⟩, hread, hdocument⟩ := bind_eq_ok_iff.mp hdocument
      dsimp only at hdocument
      split at hdocument
      · cases hdocument
        exact ⟨rest, reads_of_value hread (by omega)⟩
      · cases hdocument
  · cases h

end FlexSynth.Json
