import FlexSynth.Proofs.Partial
import FlexSynth.Proofs.Regex.Meaning
import FlexSynth.Proofs.Regex.Rendered

/-!
# What pattern texts are made of

The pattern text of an expression is made of quoted literals, bracket expressions and a
few fixed signs (`patternSigns`), one after the other. So what is true of all of these,
and of two texts together when it is true of each, is true of every pattern text
(`PieceRule.render`). Precedence and grouping make no difference to such a property.

An expression with an empty character may be written with an empty bracket expression,
which is no bracket expression to flex. Where that matters, the expression has to hold
single characters.

Only the literals of expressions that are rendered are written (`Regex.Writes`), so a property
need not hold of other literals (`PieceRule`). And it need hold of bracket expressions only for
the sets of characters in the expression (`Regex.AllSets`).
-/

namespace FlexSynth

open Partial

/-- The texts between literals and bracket expressions. -/
def patternSigns : List String :=
  ["(", ")", "|", "*", "+", "?", "\x7b+\x7d", "\x7b-\x7d", ".", "[^\\n]"]
    ++ [CharClass.digit, .letter, .upper, .lower].flatMap fun cls => [cls.bracket, cls.use]

/-- A property of texts that holds of all pieces of pattern texts and is kept when texts
are put together. -/
structure PieceProperty (P : String → Prop) : Prop where
  append : ∀ {text more : String}, P text → P more → P (text ++ more)
  literal : ∀ text, P (Text.cString text)
  bracket : ∀ chars, chars ≠ "" → P (Regex.bracket chars)
  sign : ∀ text ∈ patternSigns, P text

/-- The text stands as a literal in what is rendered for the expression. -/
def Regex.Writes (r : Regex) (text : String) : Prop :=
  r.Renders (.char text) ∨ r.Renders (.word text)

/-- Every set of characters in the expression has the property. A single character counts as a
set of its own. -/
def Regex.AllSets (Listed : String → Prop) : Regex → Prop
  | .char chars | .oneOf chars => Listed chars
  | .seq left right | .alt left right | .minus left right =>
    left.AllSets Listed ∧ right.AllSets Listed
  | .star body | .plus body | .opt body => body.AllSets Listed
  | .word _ | .eps | .named _ | .any => True

theorem Regex.allSets_of_forall {Listed : String → Prop} (h : ∀ chars, Listed chars) (r : Regex) :
    r.AllSets Listed := by
  induction r with
  | char chars | oneOf chars => exact h chars
  | seq _ _ ihl ihr | alt _ _ ihl ihr | minus _ _ ihl ihr => exact ⟨ihl, ihr⟩
  | star _ ih | plus _ ih | opt _ ih => exact ih
  | word | eps | named | any => trivial

theorem Regex.AllSets.of_mem_branches {Listed : String → Prop} {r b : Regex}
    (hr : r.AllSets Listed) (h : b ∈ r.branches) : b.AllSets Listed := by
  induction r with
  | alt l r ihl ihr =>
    rw [Regex.branches, List.mem_append] at h
    exact h.elim (ihl hr.1) (ihr hr.2)
  | _ =>
    rw [Regex.branches, List.mem_singleton] at h
    · subst h
      exact hr
    · exact fun _ _ h => Regex.noConfusion h

/-- A property of texts that holds of all pieces of pattern texts, of the given literals and the
given sets at least, and is kept when texts are put together. -/
structure PieceRule (Literal Listed P : String → Prop) : Prop where
  append : ∀ {text more : String}, P text → P more → P (text ++ more)
  literal : ∀ text, Literal text → P (Text.cString text)
  bracket : ∀ chars, chars ≠ "" → Listed chars → P (Regex.bracket chars)
  sign : ∀ text ∈ patternSigns, P text

namespace PieceRule

variable {Literal Listed P : String → Prop}

theorem grouped (hP : PieceRule Literal Listed P) {text : String} (h : P text) (needed : Bool) :
    P (Regex.grouped needed text) := by
  unfold Regex.grouped
  split
  · exact hP.append (hP.append (hP.sign "(" (by decide)) h) (hP.sign ")" (by decide))
  · exact h

theorem symbol (hP : PieceRule Literal Listed P) (op : Repetition) : P op.symbol := by
  cases op with
  | star => exact hP.sign "*" (by decide)
  | plus => exact hP.sign "+" (by decide)
  | opt => exact hP.sign "?" (by decide)

theorem repeated (hP : PieceRule Literal Listed P) {op : Repetition} {body : Regex} {text : String}
    (hbody : ¬body.Void → ∀ {context text}, body.render context = .ok text → P text)
    (h : Regex.repeated op body body.render = .ok text) : P text := by
  obtain ⟨hvoid, inner, hinner, rfl⟩ := Regex.repeated_eq_ok_iff.mp h
  exact hP.append (hP.grouped (hbody hvoid hinner) _) (hP.symbol op)

theorem chars (hP : PieceRule Literal Listed P) {r : Regex}
    (hr : r.HasSingleChars ∨ P (Regex.bracket "")) {text : String}
    (hsingle : r.HasSingleChars → text ≠ "") (hlisted : Listed text) :
    P (Regex.bracket text) := by
  by_cases hempty : text = ""
  · subst hempty
    exact hr.elim (fun h => absurd rfl (hsingle h)) id
  · exact hP.bracket text hempty hlisted

/-- It holds of every bracket expression for a class. -/
theorem classPattern (hP : PieceRule Literal Listed P) {r : Regex}
    (hr : r.HasSingleChars ∨ P (Regex.bracket "")) (hsets : r.AllSets Listed) {text : String}
    (h : r.classPattern? = some text) : P text := by
  induction r generalizing text with
  | char chars =>
    cases h
    refine hP.chars hr ?_ hsets
    rintro hsingle rfl
    cases hsingle
  | oneOf chars =>
    obtain ⟨hne, rfl⟩ := Regex.classPattern?_oneOf_eq_some_iff.mp h
    exact hP.bracket chars hne hsets
  | alt left right ihl ihr =>
    obtain ⟨l, r, hl, hright, rfl⟩ := Regex.classPattern?_alt_eq_some_iff.mp h
    have hplus : P "\x7b+\x7d" := hP.sign _ (by decide)
    exact hP.append (hP.append (ihl (hr.imp_left And.left) hsets.1 hl) hplus)
      (ihr (hr.imp_left And.right) hsets.2 hright)
  | named cls =>
    cases h
    cases cls <;> exact hP.sign _ (by decide)
  | any =>
    cases h
    exact hP.sign _ (by decide)
  | _ => cases h

/-- It holds of a class from which others have been taken away. -/
theorem differences (hP : PieceRule Literal Listed P) {branches : List Regex} {texts : List String}
    (hclass : ∀ b ∈ branches, ∀ text, b.classPattern? = some text → P text)
    (hall : List.Forall₂ (fun b text => b.classPattern? = some text) branches texts)
    {text : String} (h : P text) : P (text ++ String.join (texts.map ("\x7b-\x7d" ++ ·))) := by
  induction hall generalizing text with
  | nil => simpa using h
  | @cons b taken branches texts hfirst _ ih =>
    have hminus : P "\x7b-\x7d" := hP.sign _ (by decide)
    have htaken := hclass b List.mem_cons_self taken hfirst
    rw [List.map_cons, String.join_cons, ← String.append_assoc]
    exact ih (fun c hc => hclass c (List.mem_cons_of_mem b hc))
      (hP.append h (hP.append hminus htaken))

/-- It holds of whatever is written for an expression that is not empty, if it holds of the
literals. -/
theorem render (hP : PieceRule Literal Listed P) {r : Regex}
    (hr : r.HasSingleChars ∨ P (Regex.bracket "")) (hsets : r.AllSets Listed) (hvoid : ¬r.Void)
    (hliteral : ∀ text, r.Writes text → Literal text) {context : Regex.Context} {text : String}
    (h : r.render context = .ok text) : P text := by
  induction r generalizing context text with
  | char chars =>
    cases h
    exact hP.literal chars (hliteral chars (.inl (.self _)))
  | word chars =>
    cases h
    exact hP.literal chars (hliteral chars (.inr (.self _)))
  | oneOf chars =>
    obtain ⟨hne, rfl⟩ := Regex.render_oneOf_eq_ok_iff.mp h
    exact hP.bracket chars hne hsets
  | seq left right ihl ihr =>
    have hleft (hleft : ¬left.Void) {context : Regex.Context} {text : String} :
        left.render context = .ok text → P text :=
      ihl (hr.imp_left And.left) hsets.1 hleft fun text h =>
        hliteral text (h.imp (.seqLeft hleft) (.seqLeft hleft))
    have hright (hright : ¬right.Void) {context : Regex.Context} {text : String} :
        right.render context = .ok text → P text :=
      ihr (hr.imp_left And.right) hsets.2 hright fun text h =>
        hliteral text (h.imp (.seqRight hright) (.seqRight hright))
    obtain ⟨hempty, h⟩ | ⟨hne, _, h⟩ | ⟨hne, hne', l, r, hl, hr, rfl⟩ :=
      Regex.render_seq_eq_ok_iff.mp h
    · exact hright (fun hempty' => hvoid (.seq hempty hempty')) h
    · exact hleft hne h
    · exact hP.grouped (hP.append (hleft hne hl) (hright hne' hr)) _
  | alt left right ihl ihr =>
    have hleft (hleft : ¬left.Void) {context : Regex.Context} {text : String} :
        left.render context = .ok text → P text :=
      ihl (hr.imp_left And.left) hsets.1 hleft fun text h =>
        hliteral text (h.imp (.altLeft hleft) (.altLeft hleft))
    have hright (hright : ¬right.Void) {context : Regex.Context} {text : String} :
        right.render context = .ok text → P text :=
      ihr (hr.imp_left And.right) hsets.2 hright fun text h =>
        hliteral text (h.imp (.altRight hright) (.altRight hright))
    obtain ⟨_, h⟩ | ⟨_, _, h⟩ | ⟨hne, hne', l, r, hl, hr, rfl⟩ :=
      Regex.render_alt_eq_ok_iff.mp h
    · exact hP.repeated hright h
    · exact hP.repeated hleft h
    · have hbar : P "|" := hP.sign _ (by decide)
      exact hP.grouped (hP.append (hP.append (hleft hne hl) hbar) (hright hne' hr)) _
  | minus left right _ _ =>
    obtain ⟨l, rs, hl, hrs, rfl⟩ := Regex.render_minus_eq_ok_iff.mp h
    refine hP.differences (fun b hb _ htext => ?_) (mapM_eq_some_iff.mp hrs)
      (hP.classPattern (hr.imp_left And.left) hsets.1 hl)
    exact hP.classPattern
      (hr.imp_left fun h => MeaningLemmas.hasSingleChars_of_mem_branches h.2 hb)
      (hsets.2.of_mem_branches hb) htext
  | star body ih =>
    refine hP.repeated (fun hbody => ih hr hsets hbody ?_) h
    exact fun text h => hliteral text (h.imp .star .star)
  | plus body ih =>
    refine hP.repeated (fun hbody => ih hr hsets hbody ?_) h
    exact fun text h => hliteral text (h.imp .plus .plus)
  | opt body ih =>
    refine hP.repeated (fun hbody => ih hr hsets hbody ?_) h
    exact fun text h => hliteral text (h.imp .opt .opt)
  | eps => cases h
  | named cls =>
    cases h
    cases cls <;> exact hP.sign _ (by decide)
  | any =>
    cases h
    exact hP.sign _ (by decide)

/-- It holds of every pattern text, if it holds of the literals in it. -/
theorem pattern (hP : PieceRule Literal Listed P) {r : Regex}
    (hr : r.HasSingleChars ∨ P (Regex.bracket "")) (hsets : r.AllSets Listed)
    (hliteral : ∀ text, r.Writes text → Literal text) {text : String} (h : r.pattern = .ok text) :
    P text := by
  unfold Regex.pattern at h
  split at h
  · cases h
  · next hne => exact hP.render hr hsets (mt Regex.isEmpty_eq_true_iff.mpr hne) hliteral h

end PieceRule

namespace PieceProperty

variable {P : String → Prop}

/-- It holds of whatever is written for an expression. -/
theorem pattern (hP : PieceProperty P) {r : Regex}
    (hr : r.HasSingleChars ∨ P (Regex.bracket "")) {text : String} (h : r.pattern = .ok text) :
    P text := by
  have hrule : PieceRule (fun _ => True) (fun _ => True) P :=
    ⟨hP.append, fun text _ => hP.literal text, fun chars hne _ => hP.bracket chars hne, hP.sign⟩
  exact hrule.pattern hr (Regex.allSets_of_forall (fun _ => trivial) r) (fun _ _ => trivial) h

end PieceProperty

end FlexSynth
