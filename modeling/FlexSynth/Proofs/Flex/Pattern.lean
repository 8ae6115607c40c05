import Mathlib.Computability.Language

/-!
# Flex patterns

A pattern is what a pattern text means once it has been read. Two views of it are
given: `Pattern.language`, the set of its words, and `Pattern.accepts`, which
decides whether a word belongs to it by taking the derivative for one character
after the other. `accepts_iff` says that they agree, so a scan can be run and its
languages reasoned about with the same definition.

A repetition at least once and an option need no constructors of their own:
`x+` is `xx*`, and `x?` is the empty word or `x`.
-/

namespace FlexSynth.Flex

open scoped Computability

/-! ## Sets of characters -/

/-- A set of characters as bracket expressions write it. -/
inductive CharSet where
  /-- The characters of the ranges, ends included. -/
  | members (ranges : List (Char × Char))
  /-- All characters but those of the ranges. -/
  | except (ranges : List (Char × Char))
  | union (left right : CharSet)
  | difference (left right : CharSet)
  deriving DecidableEq, Repr

def inRanges (ranges : List (Char × Char)) (c : Char) : Bool :=
  ranges.any fun (low, high) => low ≤ c && c ≤ high

def CharSet.contains : CharSet → Char → Bool
  | .members ranges, c => inRanges ranges c
  | .except ranges, c => !inRanges ranges c
  | .union left right, c => left.contains c || right.contains c
  | .difference left right, c => left.contains c && !right.contains c

/-- Ranges of one character each have exactly these characters. -/
theorem inRanges_singles (chars : List Char) (c : Char) :
    inRanges (chars.map fun x => (x, x)) c = true ↔ c ∈ chars := by
  unfold inRanges
  rw [List.any_map, List.any_eq_true]
  constructor
  · rintro ⟨x, hx, h⟩
    simp only [Function.comp_apply, Bool.and_eq_true, decide_eq_true_eq] at h
    rw [Char.le_antisymm h.2 h.1]
    exact hx
  · intro hc
    exact ⟨c, hc, by simp⟩

theorem contains_except_single (c d : Char) :
    (CharSet.except [(d, d)]).contains c = true ↔ c ≠ d := by
  have h := inRanges_singles [d] c
  rw [List.map_singleton, List.mem_singleton] at h
  rw [CharSet.contains, Bool.not_eq_true', Ne, ← h, Bool.not_eq_true]

/-! ## Patterns and their words -/

/-- A pattern, with its macros expanded. -/
inductive Pattern where
  | literal (text : List Char)
  | set (s : CharSet)
  | seq (left right : Pattern)
  | alt (left right : Pattern)
  | star (body : Pattern)
  deriving DecidableEq, Repr

/-- The words of one character, of which `P` holds. -/
def singles (P : Char → Prop) : Language Char :=
  {w | ∃ c, w = [c] ∧ P c}

theorem mem_singles {P : Char → Prop} {c : Char} : [c] ∈ singles P ↔ P c := by
  constructor
  · rintro ⟨d, hd, h⟩
    rw [(List.cons.inj hd).1]
    exact h
  · intro h
    exact ⟨c, rfl, h⟩

theorem singles_congr {P Q : Char → Prop} (h : ∀ c, P c ↔ Q c) : singles P = singles Q := by
  rw [funext fun c => propext (h c)]

namespace Pattern

/-- The words that a pattern matches. -/
def language : Pattern → Language Char
  | .literal text => {text}
  | .set s => singles fun c => s.contains c = true
  | .seq left right => left.language * right.language
  | .alt left right => left.language + right.language
  | .star body => body.language∗

def plus (body : Pattern) : Pattern :=
  .seq body (.star body)

def opt (body : Pattern) : Pattern :=
  .alt (.literal []) body

def nothing : Pattern :=
  .set (.members [])

@[simp] theorem mem_literal {text w : List Char} : w ∈ (literal text).language ↔ w = text :=
  Iff.rfl

@[simp] theorem mem_set {s : CharSet} {w : List Char} :
    w ∈ (set s).language ↔ ∃ c, w = [c] ∧ s.contains c = true :=
  Iff.rfl

@[simp] theorem mem_seq {left right : Pattern} {w : List Char} :
    w ∈ (seq left right).language ↔ ∃ u ∈ left.language, ∃ v ∈ right.language, u ++ v = w :=
  Language.mem_mul

@[simp] theorem mem_alt {left right : Pattern} {w : List Char} :
    w ∈ (alt left right).language ↔ w ∈ left.language ∨ w ∈ right.language :=
  Iff.rfl

@[simp] theorem not_mem_nothing {w : List Char} : w ∉ nothing.language := by
  rintro ⟨c, _, hc⟩
  exact Bool.noConfusion hc

theorem language_plus (body : Pattern) :
    body.plus.language = body.language * body.language∗ :=
  rfl

theorem language_opt (body : Pattern) : body.opt.language = 1 + body.language :=
  rfl

/-! ## Deciding membership -/

def nullable : Pattern → Bool
  | .literal text => text.isEmpty
  | .set _ => false
  | .seq left right => left.nullable && right.nullable
  | .alt left right => left.nullable || right.nullable
  | .star _ => true

/-- What may follow the character `c`. -/
def derivative (c : Char) : Pattern → Pattern
  | .literal [] => nothing
  | .literal (a :: rest) => if a = c then .literal rest else nothing
  | .set s => if s.contains c then .literal [] else nothing
  | .seq left right =>
    -- When the left part may be empty, `c` may also be the first character of the right.
    if left.nullable then .alt (.seq (left.derivative c) right) (right.derivative c)
    else .seq (left.derivative c) right
  | .alt left right => .alt (left.derivative c) (right.derivative c)
  | .star body => .seq (body.derivative c) (.star body)

/-- Whether a word is matched. -/
def accepts (p : Pattern) (w : List Char) : Bool :=
  (w.foldl (fun p c => p.derivative c) p).nullable

theorem nullable_iff {p : Pattern} : p.nullable = true ↔ [] ∈ p.language := by
  induction p with
  | literal text =>
    rw [mem_literal, nullable, List.isEmpty_iff]
    exact eq_comm
  | set s => simp [nullable]
  | seq left right ihl ihr =>
    rw [nullable, Bool.and_eq_true, ihl, ihr, mem_seq]
    constructor
    · rintro ⟨hl, hr⟩
      exact ⟨[], hl, [], hr, rfl⟩
    · rintro ⟨u, hu, v, hv, huv⟩
      obtain ⟨rfl, rfl⟩ := List.append_eq_nil_iff.mp huv
      exact ⟨hu, hv⟩
  | alt left right ihl ihr => rw [nullable, Bool.or_eq_true, ihl, ihr, mem_alt]
  | star body _ => exact iff_of_true rfl (Language.nil_mem_kstar body.language)

end Pattern

/-! A word of a product or of a repetition that is not empty, split after its first
character. -/

theorem cons_mem_mul {L M : Language Char} {c : Char} {w : List Char} :
    c :: w ∈ L * M ↔
      (∃ u v, c :: u ∈ L ∧ v ∈ M ∧ u ++ v = w) ∨ ([] ∈ L ∧ c :: w ∈ M) := by
  rw [Language.mem_mul]
  constructor
  · rintro ⟨u, hu, v, hv, huv⟩
    cases u with
    | nil =>
      rw [List.nil_append] at huv
      subst huv
      exact .inr ⟨hu, hv⟩
    | cons a u =>
      obtain ⟨rfl, rfl⟩ := List.cons.inj huv
      exact .inl ⟨u, v, hu, hv, rfl⟩
  · rintro (⟨u, v, hu, hv, rfl⟩ | ⟨hnil, hw⟩)
    · exact ⟨c :: u, hu, v, hv, rfl⟩
    · exact ⟨[], hnil, c :: w, hw, rfl⟩

theorem cons_mem_kstar {L : Language Char} {c : Char} {w : List Char} :
    c :: w ∈ L∗ ↔ ∃ u v, c :: u ∈ L ∧ v ∈ L∗ ∧ u ++ v = w := by
  constructor
  · rw [Language.mem_kstar_iff_exists_nonempty]
    rintro ⟨words, hw, hmem⟩
    -- None of the words is empty, so the first one starts with `c`.
    cases words with
    | nil => cases hw
    | cons first rest =>
      obtain ⟨hfirst, hne⟩ := hmem first List.mem_cons_self
      cases first with
      | nil => exact absurd rfl hne
      | cons a u =>
        obtain ⟨rfl, rfl⟩ := List.cons.inj hw
        refine ⟨u, rest.flatten, hfirst, ?_, rfl⟩
        exact Language.join_mem_kstar fun v hv => (hmem v (List.mem_cons_of_mem _ hv)).1
  · rintro ⟨u, v, hu, hv, rfl⟩
    obtain ⟨words, rfl, hmem⟩ := Language.mem_kstar.mp hv
    refine Language.mem_kstar.mpr ⟨(c :: u) :: words, rfl, ?_⟩
    intro x hx
    rcases List.mem_cons.mp hx with rfl | hx
    · exact hu
    · exact hmem x hx

namespace Pattern

/-- A repeated set matches the texts of its characters. -/
theorem mem_star_set {s : CharSet} {w : List Char} :
    w ∈ (star (set s)).language ↔ ∀ c ∈ w, s.contains c = true := by
  induction w with
  | nil => simp [language, Language.nil_mem_kstar]
  | cons c w ih =>
    have hcons : c :: w ∈ (star (set s)).language ↔ _ := cons_mem_kstar
    rw [hcons, List.forall_mem_cons, ← ih]
    constructor
    · rintro ⟨u, v, hu, hv, rfl⟩
      obtain ⟨d, hd, hcontains⟩ := mem_set.mp hu
      cases hd
      exact ⟨hcontains, hv⟩
    · rintro ⟨hc, hw⟩
      exact ⟨[], w, mem_set.mpr ⟨c, rfl, hc⟩, hw, rfl⟩

/-- And at least once, those that are not empty. -/
theorem mem_plus_set {s : CharSet} {w : List Char} :
    w ∈ (plus (set s)).language ↔ w ≠ [] ∧ ∀ c ∈ w, s.contains c = true := by
  rw [plus, mem_seq]
  constructor
  · rintro ⟨u, hu, v, hv, rfl⟩
    obtain ⟨c, rfl, hc⟩ := mem_set.mp hu
    exact ⟨List.cons_ne_nil c v, List.forall_mem_cons.mpr ⟨hc, mem_star_set.mp hv⟩⟩
  · rintro ⟨hne, hw⟩
    obtain ⟨c, v, rfl⟩ := List.exists_cons_of_ne_nil hne
    obtain ⟨hc, hv⟩ := List.forall_mem_cons.mp hw
    exact ⟨[c], mem_set.mpr ⟨c, rfl, hc⟩, v, mem_star_set.mpr hv, rfl⟩

theorem mem_derivative {p : Pattern} {c : Char} {w : List Char} :
    w ∈ (p.derivative c).language ↔ c :: w ∈ p.language := by
  induction p generalizing w with
  | literal text =>
    cases text with
    | nil => simp [derivative]
    | cons a rest =>
      unfold derivative
      split
      · next h => simp [h]
      · next h => simp [Ne.symm h]
  | set s =>
    unfold derivative
    split
    · next h => simp [h]
    · next h => simp [h]
  | seq left right ihl ihr =>
    have hsplit : w ∈ (seq (left.derivative c) right).language ↔
        ∃ u v, c :: u ∈ left.language ∧ v ∈ right.language ∧ u ++ v = w := by
      rw [mem_seq]
      constructor
      · rintro ⟨u, hu, v, hv, rfl⟩
        exact ⟨u, v, ihl.mp hu, hv, rfl⟩
      · rintro ⟨u, v, hu, hv, rfl⟩
        exact ⟨u, ihl.mpr hu, v, hv, rfl⟩
    have hcons : c :: w ∈ (seq left right).language ↔ _ := cons_mem_mul
    rw [hcons]
    unfold derivative
    split
    · next h =>
      rw [mem_alt, hsplit, ihr, and_iff_right (nullable_iff.mp h)]
    · next h =>
      rw [hsplit, or_iff_left]
      exact fun hnil => h (nullable_iff.mpr hnil.1)
  | alt left right ihl ihr =>
    rw [derivative, mem_alt, mem_alt, ihl, ihr]
  | star body ih =>
    have hcons : c :: w ∈ (star body).language ↔ _ := cons_mem_kstar
    rw [hcons, derivative, mem_seq]
    constructor
    · rintro ⟨u, hu, v, hv, rfl⟩
      exact ⟨u, v, ih.mp hu, hv, rfl⟩
    · rintro ⟨u, v, hu, hv, rfl⟩
      exact ⟨u, ih.mpr hu, v, hv, rfl⟩

/-- Derivatives decide the language. -/
theorem accepts_iff {p : Pattern} {w : List Char} : p.accepts w = true ↔ w ∈ p.language := by
  -- The pattern changes with every character, so the induction is for all patterns.
  induction w generalizing p with
  | nil => exact nullable_iff
  | cons c w ih => exact ih.trans mem_derivative

example : (seq (literal ['a']) (star (set (.members [('0', '9')])))).accepts
    ['a', '4', '2'] = true := by
  decide

end Pattern

end FlexSynth.Flex
