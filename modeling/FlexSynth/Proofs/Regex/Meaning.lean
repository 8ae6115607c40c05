import FlexSynth.Proofs.Flex.Binding
import FlexSynth.Proofs.Flex.Lexing
import FlexSynth.Proofs.Partial
import FlexSynth.Proofs.Regex.Rendered
import FlexSynth.Scanner.Synthesis

/-!
# Patterns mean what their expressions mean

`Regex.language` is the language of an expression. The pattern text of an expression
is read by `Flex.read` as a pattern with exactly this language
(`pattern_denotes`). The proof goes along the rendering of the expression: in every
context it writes tokens that bind at least as tightly as the context asks for
(`denotes_render`).

Differences need the most care. Their operands are written as bracket expressions,
which is only right for expressions that match single characters, and a union on the
right is taken away branch by branch.
-/

namespace FlexSynth

open Flex Partial
open scoped Computability

/-! ## Languages -/

def CharClass.contains : CharClass → Char → Bool
  | .digit, c => c.isDigit
  | .letter, c => c.isAlpha
  | .upper, c => c.isUpper
  | .lower, c => c.isLower

namespace Regex

/-- The words that an expression matches. -/
def language : Regex → Language Char
  | .char text | .word text => {text.toList}
  | .oneOf chars => singles fun c => c ∈ chars.toList
  | .seq left right => left.language * right.language
  | .alt left right => left.language + right.language
  | .minus left right => singles fun c => [c] ∈ left.language ∧ [c] ∉ right.language
  | .star body => body.language∗
  | .plus body => body.language * body.language∗
  | .opt body => 1 + body.language
  | .eps => 1
  | .named cls => singles fun c => cls.contains c = true
  | .any => singles fun c => c ≠ '\n'

/-- Every `char` in the expression holds one character. -/
def HasSingleChars : Regex → Prop
  | .char text => text.length = 1
  | .seq left right | .alt left right | .minus left right =>
    left.HasSingleChars ∧ right.HasSingleChars
  | .star body | .plus body | .opt body => body.HasSingleChars
  | .word _ | .oneOf _ | .eps | .named _ | .any => True

instance decidableHasSingleChars : DecidablePred HasSingleChars
  | .char text => inferInstanceAs (Decidable (text.length = 1))
  | .seq left right | .alt left right | .minus left right =>
    haveI := decidableHasSingleChars left
    haveI := decidableHasSingleChars right
    inferInstanceAs (Decidable (left.HasSingleChars ∧ right.HasSingleChars))
  | .star body | .plus body | .opt body => decidableHasSingleChars body
  | .word _ | .oneOf _ | .eps | .named _ | .any => inferInstanceAs (Decidable True)

end Regex

namespace MeaningLemmas

/-- The macros as every scanner description defines them. -/
abbrev standard : List Char → Option Pattern :=
  macroPattern? standardMacros

/-! ## Empty expressions -/

theorem language_of_void {r : Regex} (h : r.Void) : r.language = 1 := by
  induction h with
  | eps => rfl
  | word => rfl
  | seq _ _ ihl ihr => rw [Regex.language, ihl, ihr, one_mul]

/-! ## Character classes -/

/-- A text is read as one bracket expression for the single characters that an
expression matches. -/
def LexesAsSet (text : String) (r : Regex) : Prop :=
  ∃ s, Lexes standard text.toList [.bracket s] ∧
    ∀ c, s.contains c = true ↔ [c] ∈ r.language

theorem lexesAsSet_bracket {chars : String} {r : Regex} (hne : chars ≠ "")
    (hr : ∀ c, c ∈ chars.toList ↔ [c] ∈ r.language) : LexesAsSet (Regex.bracket chars) r := by
  refine ⟨.members (chars.toList.map fun c => (c, c)), lexes_bracket hne, fun c => ?_⟩
  rw [CharSet.contains, inRanges_singles]
  exact hr c

/-- The set that both ways to write an ASCII class stand for. -/
def classSet : CharClass → CharSet
  | .digit => .members [('0', '9')]
  | .letter => .members [('a', 'z'), ('A', 'Z')]
  | .upper => .members [('A', 'Z')]
  | .lower => .members [('a', 'z')]

theorem contains_classSet (cls : CharClass) (c : Char) :
    (classSet cls).contains c = true ↔ cls.contains c = true := by
  cases cls with
  | digit =>
    show _ ↔ c.isDigit = true
    rw [isDigit_iff]
    simp [classSet, CharSet.contains, inRanges]
  | letter =>
    show _ ↔ (c.isUpper || c.isLower) = true
    rw [Bool.or_eq_true, isUpper_iff, isLower_iff, or_comm]
    simp [classSet, CharSet.contains, inRanges]
  | upper =>
    show _ ↔ c.isUpper = true
    rw [isUpper_iff]
    simp [classSet, CharSet.contains, inRanges]
  | lower =>
    show _ ↔ c.isLower = true
    rw [isLower_iff]
    simp [classSet, CharSet.contains, inRanges]

theorem language_named (cls : CharClass) :
    (Regex.named cls).language = singles fun c => (classSet cls).contains c = true :=
  singles_congr fun c => (contains_classSet cls c).symm

/-- A fixed bracket expression is the token of its set. -/
theorem lexes_fixed {text : String} {b : Bracket} {s : CharSet}
    (h : Spells .plain text.toList (.bracket b)) (hs : b.set? = some s) :
    Lexes standard text.toList [.bracket s] :=
  h.lexes (by rw [token?, hs]; rfl)

theorem lexesAsSet_named (cls : CharClass) : LexesAsSet cls.bracket (.named cls) := by
  refine ⟨classSet cls, ?_, fun c => ?_⟩
  · cases cls with
    | digit => exact lexes_fixed (b := ⟨false, [.range '0' '9']⟩) (fun _ => rfl) rfl
    | letter =>
      exact lexes_fixed (b := ⟨false, [.range 'a' 'z', .range 'A' 'Z']⟩) (fun _ => rfl) rfl
    | upper => exact lexes_fixed (b := ⟨false, [.range 'A' 'Z']⟩) (fun _ => rfl) rfl
    | lower => exact lexes_fixed (b := ⟨false, [.range 'a' 'z']⟩) (fun _ => rfl) rfl
  · rw [language_named, mem_singles]

theorem lexes_use (cls : CharClass) :
    Lexes standard cls.use.toList [.atom (.set (classSet cls))] := by
  cases cls with
  | digit => exact lexes_braces "DIGIT".toList (by simp) (by decide)
  | letter => exact lexes_braces "LETTER".toList (by simp) (by decide)
  | upper => exact lexes_braces "CAPITAL".toList (by simp) (by decide)
  | lower => exact lexes_braces "SMALL".toList (by simp) (by decide)

theorem language_any : Regex.any.language = dot.language :=
  singles_congr fun c => (contains_except_single c '\n').symm

theorem lexesAsSet_any : LexesAsSet "[^\\n]" .any := by
  refine ⟨.except [('\n', '\n')], ?_, fun c => ?_⟩
  · exact lexes_fixed (b := ⟨true, [.single '\n']⟩) (fun _ => rfl) rfl
  · rw [contains_except_single, Regex.language, mem_singles]

/-- A class that is no union is one bracket expression. -/
theorem lexesAsSet_of_classPattern {r : Regex} (hr : r.HasSingleChars)
    (hsingle : ∀ left right, r ≠ .alt left right) {text : String}
    (h : r.classPattern? = some text) : LexesAsSet text r := by
  cases r with
  | char chars =>
    cases h
    obtain ⟨c, hc⟩ := List.length_eq_one_iff.mp (String.length_toList.trans hr)
    apply lexesAsSet_bracket
    · rintro rfl
      cases hc
    · intro d
      rw [hc, List.mem_singleton, Regex.language, hc]
      exact ⟨fun h => by rw [h]; rfl, fun h => (List.cons.inj h).1⟩
  | oneOf chars =>
    obtain ⟨hne, rfl⟩ := Regex.classPattern?_oneOf_eq_some_iff.mp h
    exact lexesAsSet_bracket hne fun c => mem_singles.symm
  | named cls =>
    cases h
    exact lexesAsSet_named cls
  | any =>
    cases h
    exact lexesAsSet_any
  | alt left right => exact absurd rfl (hsingle left right)
  | _ => cases h

/-- A class is bracket expressions joined by unions. -/
theorem lexes_classPattern {r : Regex} (hr : r.HasSingleChars) {text : String}
    (h : r.classPattern? = some text) :
    ∃ s, ∃ sets : List CharSet,
      Lexes standard text.toList (setTokens s (sets.map (SetOperator.union, ·))) ∧
      ∀ c, (∃ t ∈ s :: sets, t.contains c = true) ↔ [c] ∈ r.language := by
  induction r generalizing text with
  | alt left right ihl ihr =>
    obtain ⟨l, r, hl, hright, rfl⟩ := Regex.classPattern?_alt_eq_some_iff.mp h
    obtain ⟨s, sets, hlex, hmem⟩ := ihl hr.1 hl
    obtain ⟨t, more, hlex', hmem'⟩ := ihr hr.2 hright
    have hplus : Lexes standard ['\x7b', '+', '\x7d'] [.operator .union] :=
      lexes_braces ['+'] (by simp) rfl
    refine ⟨s, sets ++ t :: more, ?_, ?_⟩
    · rw [List.map_append, setTokens_append, String.toList_append, String.toList_append,
        List.append_assoc]
      exact hlex.append (hplus.append hlex')
    · intro c
      have hsum : [c] ∈ (Regex.alt left right).language ↔
          [c] ∈ left.language ∨ [c] ∈ right.language := Iff.rfl
      rw [hsum, ← hmem c, ← hmem' c, ← List.cons_append]
      simp only [List.mem_append, or_and_right, exists_or]
  | _ =>
    obtain ⟨s, hlex, hmem⟩ := lexesAsSet_of_classPattern hr (fun _ _ => by simp) h
    refine ⟨s, [], hlex, fun c => ?_⟩
    rw [← hmem c]
    simp only [List.mem_singleton, exists_eq_left]

/-! ## Differences -/

theorem not_alt_of_mem_branches {r b : Regex} (h : b ∈ r.branches) (left right : Regex) :
    b ≠ .alt left right := by
  induction r with
  | alt l r ihl ihr =>
    rw [Regex.branches, List.mem_append] at h
    exact h.elim ihl ihr
  | _ =>
    rw [Regex.branches, List.mem_singleton] at h
    · subst h
      exact Regex.noConfusion
    · exact fun _ _ h => Regex.noConfusion h

theorem hasSingleChars_of_mem_branches {r b : Regex} (hr : r.HasSingleChars)
    (h : b ∈ r.branches) : b.HasSingleChars := by
  induction r with
  | alt l r ihl ihr =>
    rw [Regex.branches, List.mem_append] at h
    exact h.elim (ihl hr.1) (ihr hr.2)
  | _ =>
    rw [Regex.branches, List.mem_singleton] at h
    · subst h
      exact hr
    · exact fun _ _ h => Regex.noConfusion h

theorem mem_language_iff_branches (r : Regex) (c : Char) :
    [c] ∈ r.language ↔ ∃ b ∈ r.branches, [c] ∈ b.language := by
  induction r with
  | alt l r ihl ihr =>
    have hsum : [c] ∈ (Regex.alt l r).language ↔ [c] ∈ l.language ∨ [c] ∈ r.language := Iff.rfl
    rw [hsum, ihl, ihr, Regex.branches]
    simp only [List.mem_append, or_and_right, exists_or]
  | _ =>
    rw [Regex.branches]
    · simp only [List.mem_singleton, exists_eq_left]
    · exact fun _ _ h => Regex.noConfusion h

/-- The branches of the right operand are taken away one after the other. -/
theorem lexes_differences {branches : List Regex} {texts : List String}
    (hclass : ∀ b ∈ branches, ∀ text, b.classPattern? = some text → LexesAsSet text b)
    (hall : List.Forall₂ (fun b text => b.classPattern? = some text) branches texts) :
    ∃ sets : List CharSet,
      Lexes standard (String.join (texts.map ("\x7b-\x7d" ++ ·))).toList
        (joinedTokens (sets.map (SetOperator.difference, ·))) ∧
      ∀ c, (∃ t ∈ sets, t.contains c = true) ↔ ∃ b ∈ branches, [c] ∈ b.language := by
  induction hall with
  | nil => exact ⟨[], lexes_nil, fun c => by simp⟩
  | @cons b text branches texts hfirst _ ih =>
    obtain ⟨t, hlex, hmem⟩ := hclass b List.mem_cons_self text hfirst
    obtain ⟨sets, hlex', hmem'⟩ := ih fun d hd => hclass d (List.mem_cons_of_mem _ hd)
    have hminus : Lexes standard ['\x7b', '-', '\x7d'] [.operator .difference] :=
      lexes_braces ['-'] (by simp) rfl
    refine ⟨t :: sets, ?_, fun c => ?_⟩
    · rw [List.map_cons, String.join_cons, String.toList_append, String.toList_append]
      exact (hminus.append hlex).append hlex'
    · simp only [List.mem_cons, exists_eq_or_imp]
      rw [hmem c, hmem' c]

theorem reads_minus {left right : Regex} (hleft : left.HasSingleChars)
    (hright : right.HasSingleChars) {text : String} {context : Regex.Context}
    (h : (Regex.minus left right).render context = .ok text) :
    ∃ ts, Lexes standard text.toList ts ∧ ReadsFactor ts (Regex.minus left right).language := by
  obtain ⟨l, rs, hl, hrs, rfl⟩ := Regex.render_minus_eq_ok_iff.mp h
  obtain ⟨s, sets, hlex, hmem⟩ := lexes_classPattern hleft hl
  obtain ⟨taken, hlex', hmem'⟩ := lexes_differences (fun b hb _ htext =>
    lexesAsSet_of_classPattern (hasSingleChars_of_mem_branches hright hb)
      (not_alt_of_mem_branches hb) htext) (mapM_eq_some_iff.mp hrs)
  -- Both operands are one row of bracket expressions: unions first, then differences.
  have htokens := hlex.append hlex'
  rw [← setTokens_append, ← String.toList_append] at htokens
  have hset : (Regex.minus left right).language = singles fun c =>
      (setOf s (sets.map (SetOperator.union, ·) ++
        taken.map (SetOperator.difference, ·))).contains c = true := by
    apply singles_congr
    intro c
    rw [setOf_append, contains_setOf_difference, contains_setOf_union, hmem c, hmem' c,
      mem_language_iff_branches right c]
  refine ⟨_, htokens, ?_⟩
  rw [hset]
  exact readsFactor_setTokens _ _

/-! ## Contexts -/

/-- The tokens bind as tightly as a context asks for. -/
def ReadsIn : Regex.Context → List Token → Language Char → Prop
  | .whole, ts, L | .branch, ts, L => ReadsBranches ts L
  | .factor, ts, L => ReadsFactors ts L
  | .operand, ts, L => ReadsFactor ts L

theorem readsIn_of_factor {ts : List Token} {L : Language Char} (h : ReadsFactor ts L)
    (context : Regex.Context) : ReadsIn context ts L := by
  cases context with
  | whole | branch => exact h.factors.branches
  | factor => exact h.factors
  | operand => exact h

/-- A text is read in a context as a pattern for an expression. -/
def Denotes (context : Regex.Context) (text : String) (r : Regex) : Prop :=
  ∃ ts, Lexes standard text.toList ts ∧ ReadsIn context ts r.language

theorem denotes_of_factor {ts : List Token} {text : String} {r : Regex}
    (hlex : Lexes standard text.toList ts) (h : ReadsFactor ts r.language)
    (context : Regex.Context) : Denotes context text r :=
  ⟨ts, hlex, readsIn_of_factor h context⟩

theorem lexes_symbol (op : Repetition) : Lexes standard op.symbol.toList [.repetition op] := by
  cases op <;> exact lexes_plain (by decide) rfl

theorem lexes_parentheses {text : String} {ts : List Token} (h : Lexes standard text.toList ts) :
    Lexes standard (Regex.grouped true text).toList (.opening :: (ts ++ [.closing])) := by
  have hopen : Lexes standard ['('] [.opening] := lexes_plain (by decide) rfl
  have hclose : Lexes standard [')'] [.closing] := lexes_plain (by decide) rfl
  have htext : (Regex.grouped true text).toList = ['('] ++ (text.toList ++ [')']) := by
    simp [Regex.grouped]
  rw [htext]
  exact hopen.append (h.append hclose)

/-- A repetition binds as tightly as can be, whatever its body. -/
theorem reads_repeated {body : Regex} {op : Repetition} {text : String}
    (hbody : ∀ {context text}, body.render context = .ok text → Denotes context text body)
    (h : Regex.repeated op body body.render = .ok text) :
    ∃ ts, Lexes standard text.toList ts ∧ ReadsFactor ts (repeatLanguage op body.language) := by
  obtain ⟨_, inner, hinner, rfl⟩ := Regex.repeated_eq_ok_iff.mp h
  obtain ⟨ts, hlex, hreads⟩ := hbody hinner
  -- With parentheses, the body may bind as loosely as it likes; without, it has been
  -- written as an operand.
  cases hgroup : body.needsGroup with
  | true =>
    rw [hgroup] at hreads
    refine ⟨_, ?_, (ReadsBranches.parentheses hreads).repetition op⟩
    rw [String.toList_append]
    exact (lexes_parentheses hlex).append (lexes_symbol op)
  | false =>
    rw [hgroup] at hreads
    refine ⟨_, ?_, ReadsFactor.repetition hreads op⟩
    rw [String.toList_append]
    exact hlex.append (lexes_symbol op)

/-- A sequence is written as factors, or in parentheses after which an operator may
stand. -/
theorem reads_sequence {left right : Regex} {l r : String} (hl : Denotes .factor l left)
    (hr : Denotes .factor r right) (context : Regex.Context) :
    Denotes context (Regex.grouped (context = .operand) (l ++ r)) (.seq left right) := by
  obtain ⟨ts, hlex, hreads⟩ := hl
  obtain ⟨us, hlex', hreads'⟩ := hr
  have hboth : ReadsFactors (ts ++ us) (Regex.seq left right).language :=
    ReadsFactors.append hreads hreads'
  have htext : Lexes standard (l ++ r).toList (ts ++ us) := by
    rw [String.toList_append]
    exact hlex.append hlex'
  cases context with
  | whole | branch => exact ⟨_, htext, hboth.branches⟩
  | factor => exact ⟨_, htext, hboth⟩
  | operand => exact ⟨_, lexes_parentheses htext, hboth.branches.parentheses⟩

/-- An alternation is written as branches, or in parentheses. -/
theorem reads_alternation {left right : Regex} {l r : String} (hl : Denotes .branch l left)
    (hr : Denotes .branch r right) (context : Regex.Context) :
    Denotes context (Regex.grouped (context = .factor ∨ context = .operand) (l ++ "|" ++ r))
      (.alt left right) := by
  obtain ⟨ts, hlex, hreads⟩ := hl
  obtain ⟨us, hlex', hreads'⟩ := hr
  have hboth : ReadsBranches (ts ++ .bar :: us) (Regex.alt left right).language :=
    ReadsBranches.bar hreads hreads'
  have htext : Lexes standard (l ++ "|" ++ r).toList (ts ++ .bar :: us) := by
    have hbar : Lexes standard ['|'] [.bar] := lexes_plain (by decide) rfl
    rw [String.toList_append, String.toList_append, List.append_assoc]
    exact hlex.append (hbar.append hlex')
  cases context with
  | whole | branch => exact ⟨_, htext, hboth⟩
  | factor => exact ⟨_, lexes_parentheses htext, hboth.parentheses.factors⟩
  | operand => exact ⟨_, lexes_parentheses htext, hboth.parentheses⟩

/-! ## Rendering -/

/-- In every context, what is written for an expression is read as the expression and
binds as tightly as the context asks for. -/
theorem denotes_render {r : Regex} (hr : r.HasSingleChars) {context : Regex.Context}
    {text : String} (h : r.render context = .ok text) : Denotes context text r := by
  induction r generalizing context text with
  | char chars | word chars =>
    cases h
    refine denotes_of_factor ?_ (readsFactor_atom (.literal chars.toList)) context
    exact lexes_cString chars
  | oneOf chars =>
    have hclass := h
    rw [Regex.render_oneOf_eq_ok_iff, ← Regex.classPattern?_oneOf_eq_some_iff] at hclass
    obtain ⟨s, hlex, hmem⟩ := lexesAsSet_of_classPattern hr (by simp) hclass
    have hset : (Regex.oneOf chars).language = singles fun c => s.contains c = true :=
      singles_congr fun c => mem_singles.symm.trans (hmem c).symm
    refine denotes_of_factor hlex ?_ context
    rw [hset]
    exact readsFactor_setTokens s []
  | seq left right ihl ihr =>
    -- An empty factor is left out; its only word is the empty one.
    obtain ⟨hvoid, h⟩ | ⟨_, hvoid, h⟩ | ⟨_, _, l, r, hl, hright, rfl⟩ :=
      Regex.render_seq_eq_ok_iff.mp h
    · obtain ⟨ts, hlex, hreads⟩ := ihr hr.2 h
      refine ⟨ts, hlex, ?_⟩
      rw [Regex.language, language_of_void hvoid, one_mul]
      exact hreads
    · obtain ⟨ts, hlex, hreads⟩ := ihl hr.1 h
      refine ⟨ts, hlex, ?_⟩
      rw [Regex.language, language_of_void hvoid, mul_one]
      exact hreads
    · exact reads_sequence (ihl hr.1 hl) (ihr hr.2 hright) context
  | alt left right ihl ihr =>
    -- With an empty branch, the other one becomes an option.
    obtain ⟨hvoid, h⟩ | ⟨_, hvoid, h⟩ | ⟨_, _, l, r, hl, hright, rfl⟩ :=
      Regex.render_alt_eq_ok_iff.mp h
    · obtain ⟨ts, hlex, hreads⟩ := reads_repeated (ihr hr.2) h
      refine denotes_of_factor hlex ?_ context
      rw [Regex.language, language_of_void hvoid]
      exact hreads
    · obtain ⟨ts, hlex, hreads⟩ := reads_repeated (ihl hr.1) h
      refine denotes_of_factor hlex ?_ context
      rw [Regex.language, language_of_void hvoid, add_comm]
      exact hreads
    · exact reads_alternation (ihl hr.1 hl) (ihr hr.2 hright) context
  | minus left right _ _ =>
    obtain ⟨ts, hlex, hreads⟩ := reads_minus hr.1 hr.2 h
    exact denotes_of_factor hlex hreads context
  | star body ih | plus body ih | opt body ih =>
    obtain ⟨ts, hlex, hreads⟩ := reads_repeated (ih hr) h
    exact ⟨ts, hlex, readsIn_of_factor hreads context⟩
  | eps => cases h
  | named cls =>
    cases h
    refine denotes_of_factor (lexes_use cls) ?_ context
    rw [language_named]
    exact readsFactor_atom (.set (classSet cls))
  | any =>
    cases h
    have hdot : Lexes standard ".".toList [.atom dot] :=
      lexes_plain (c := '.') (by decide) rfl
    refine denotes_of_factor hdot ?_ context
    rw [language_any]
    exact readsFactor_atom dot

end MeaningLemmas

open MeaningLemmas

/-- The pattern text of an expression is a pattern, and what it matches are the words
of the expression. -/
theorem pattern_denotes {r : Regex} (hr : r.HasSingleChars) {text : String}
    (h : r.pattern = .ok text) :
    ∃ p, Flex.read standardMacros text = some p ∧ p.language = r.language := by
  unfold Regex.pattern at h
  split at h
  · cases h
  · obtain ⟨ts, hlex, hreads⟩ := denotes_render hr h
    obtain ⟨reading, p, hrun, hfinish, hp⟩ := ReadsBranches.finish hreads
    exact ⟨p, readWith_of_lexes hlex hrun hfinish, hp⟩

/-- An expression whose pattern needs every kind of care: a union on both sides of a
difference, escapes in quotes and in brackets, an empty factor and an empty branch. -/
def mixedRegex : Regex :=
  .seq (.minus (.alt (.named .letter) (.oneOf "]\n")) (.alt (.char "x") (.named .upper)))
    (.seq (.opt (.word "a\"b")) (.star (.alt (.seq .any .eps) (.seq (.char "\\")
      (.alt .eps (.word "\x01"))))))

theorem mixedRegex_denotes : mixedRegex.HasSingleChars ∧
    ∃ p, Flex.read standardMacros
      "[a-zA-Z]\x7b+\x7d[\\]\\n]\x7b-\x7d[x]\x7b-\x7d[A-Z](\"a\\\"b\")?(.|\"\\\\\"\"\\001\"?)*" = some p ∧
      p.language = mixedRegex.language :=
  ⟨by decide, pattern_denotes (by decide) (by decide)⟩

end FlexSynth
