import FlexSynth.Regex.Pattern

/-!
# The grouping of sequences

A sequence of several factors is a tree of pairs, and the same factors can be grouped into many
trees. `Regex.flat` forgets the groups: it puts the factors of nested sequences into one list,
everywhere in an expression. Two expressions that are the same when flat have the same pattern,
or the same fault (`grouping_irrelevant`), although the pattern is written pair by pair and empty
factors are left out at each pair.

Expressions that no check of the translator can tell apart are *alike* (`Alike`). Parts may be
exchanged for alike parts in every expression, and a pair of groups may be regrouped
(`Alike.assoc`). By these two steps every expression is turned into the one that nests its
factors to the right (`alike_nested`), which depends on its flat form only.
-/

namespace FlexSynth

namespace Regex

/-! ## Flat expressions -/

/-- An expression in which a sequence is the list of its factors. -/
inductive Flat where
  | char (text : String)
  | word (text : String)
  | oneOf (chars : String)
  | sequence (factors : List Flat)
  | alt (left right : Flat)
  | minus (left right : Flat)
  | star (body : Flat)
  | plus (body : Flat)
  | opt (body : Flat)
  | eps
  | named (cls : CharClass)
  | any

/-- The factors of a sequence. What is no sequence is its own and only factor. -/
def Flat.factors : Flat → List Flat
  | .sequence factors => factors
  | f => [f]

/-- The expression with nested sequences made into one list of factors, at every depth. -/
def flat : Regex → Flat
  | .char text => .char text
  | .word text => .word text
  | .oneOf chars => .oneOf chars
  | .seq left right => .sequence (left.flat.factors ++ right.flat.factors)
  | .alt left right => .alt left.flat right.flat
  | .minus left right => .minus left.flat right.flat
  | .star body => .star body.flat
  | .plus body => .plus body.flat
  | .opt body => .opt body.flat
  | .eps => .eps
  | .named cls => .named cls
  | .any => .any

mutual

/-- The expression that nests the factors of every sequence to the right. -/
def Flat.nested : Flat → Regex
  | .char text => .char text
  | .word text => .word text
  | .oneOf chars => .oneOf chars
  | .sequence factors => Regex.sequence (Flat.nestedAll factors)
  | .alt left right => .alt left.nested right.nested
  | .minus left right => .minus left.nested right.nested
  | .star body => .star body.nested
  | .plus body => .plus body.nested
  | .opt body => .opt body.nested
  | .eps => .eps
  | .named cls => .named cls
  | .any => .any

def Flat.nestedAll : List Flat → List Regex
  | [] => []
  | f :: rest => f.nested :: Flat.nestedAll rest

end

namespace Flat

theorem nestedAll_append (fs gs : List Flat) :
    nestedAll (fs ++ gs) = nestedAll fs ++ nestedAll gs := by
  induction fs with
  | nil => rfl
  | cons f fs ih => rw [List.cons_append, nestedAll, nestedAll, ih, List.cons_append]

theorem nestedAll_ne_nil {fs : List Flat} (h : fs ≠ []) : nestedAll fs ≠ [] := by
  cases fs with
  | nil => exact absurd rfl h
  | cons f fs => exact List.cons_ne_nil _ _

theorem sequence_nestedAll_factors (f : Flat) :
    Regex.sequence (nestedAll f.factors) = f.nested := by
  cases f <;> rfl

end Flat

theorem factors_flat_ne_nil (r : Regex) : r.flat.factors ≠ [] := by
  induction r with
  | seq left right ihl _ => exact List.append_ne_nil_of_left_ne_nil ihl _
  | _ => exact List.cons_ne_nil _ _

/-! ## Expressions that are alike -/

/-- The translator cannot tell the expressions apart. -/
structure Alike (r s : Regex) : Prop where
  isEmpty : r.isEmpty = s.isEmpty
  needsGroup : r.needsGroup = s.needsGroup
  classPattern : r.classPattern? = s.classPattern?
  branchPatterns : r.branches.mapM classPattern? = s.branches.mapM classPattern?
  render : ∀ context, r.render context = s.render context

/-- An expression without branches is the only branch of itself. -/
theorem branchPatterns_congr {r s : Regex} (hr : r.branches = [r]) (hs : s.branches = [s])
    (h : r.classPattern? = s.classPattern?) :
    r.branches.mapM classPattern? = s.branches.mapM classPattern? := by
  simp only [hr, hs, List.mapM_cons, List.mapM_nil, h]

theorem repeated_congr {op : Repetition} {r s : Regex} (h : r.Alike s) :
    repeated op r r.render = repeated op s s.render := by
  unfold repeated
  rw [h.isEmpty, h.needsGroup, h.render]

/-! ### Sequences -/

section

variable {left right : Regex} (context : Context)

theorem render_seq_left (h : left.isEmpty = true) :
    (seq left right).render context = right.render context := by
  rw [render, if_pos h]

theorem render_seq_right (h : left.isEmpty = false) (h' : right.isEmpty = true) :
    (seq left right).render context = left.render context := by
  rw [render, h, if_neg Bool.false_ne_true, if_pos h']

/-- Two factors that are not empty are written one after the other. -/
theorem render_seq_both (h : left.isEmpty = false) (h' : right.isEmpty = false) :
    (seq left right).render context = (do
      let l ← left.render .factor
      let r ← right.render .factor
      return grouped (context = .operand) (l ++ r)) := by
  rw [render, h, if_neg Bool.false_ne_true, h', if_neg Bool.false_ne_true]

/-- Among factors, a sequence needs no parentheses. -/
theorem render_seq_factor (h : left.isEmpty = false) (h' : right.isEmpty = false) :
    (seq left right).render .factor = (do
      let l ← left.render .factor
      let r ← right.render .factor
      return l ++ r) :=
  render_seq_both .factor h h'

end

/-- Regrouping makes no difference to what is written. -/
theorem render_assoc (a b c : Regex) (context : Context) :
    (seq (seq a b) c).render context = (seq a (seq b c)).render context := by
  have hpair (r s : Regex) : (seq r s).isEmpty = (r.isEmpty && s.isEmpty) := rfl
  cases ha : a.isEmpty with
  | true =>
    rw [render_seq_left context ha]
    cases hb : b.isEmpty with
    | true =>
      have hab : (seq a b).isEmpty = true := by rw [hpair, ha, hb, Bool.and_self]
      rw [render_seq_left context hab, render_seq_left context hb]
    | false =>
      have hab : (seq a b).isEmpty = false := by rw [hpair, ha, hb, Bool.and_false]
      cases hc : c.isEmpty with
      | true =>
        rw [render_seq_right context hab hc, render_seq_right context hb hc,
          render_seq_left context ha]
      | false =>
        rw [render_seq_both context hab hc, render_seq_both context hb hc,
          render_seq_left .factor ha]
  | false =>
    have hab : (seq a b).isEmpty = false := by rw [hpair, ha, Bool.false_and]
    cases hc : c.isEmpty with
    | true =>
      rw [render_seq_right context hab hc]
      cases hb : b.isEmpty with
      | true =>
        have hbc : (seq b c).isEmpty = true := by rw [hpair, hb, hc, Bool.and_self]
        rw [render_seq_right context ha hb, render_seq_right context ha hbc]
      | false =>
        have hbc : (seq b c).isEmpty = false := by rw [hpair, hb, Bool.false_and]
        rw [render_seq_both context ha hb, render_seq_both context ha hbc,
          render_seq_right .factor hb hc]
    | false =>
      have hbc : (seq b c).isEmpty = false := by rw [hpair, hc, Bool.and_false]
      rw [render_seq_both context hab hc, render_seq_both context ha hbc]
      cases hb : b.isEmpty with
      | true => rw [render_seq_right .factor ha hb, render_seq_left .factor hb]
      | false =>
        -- Both sides write the three factors from left to right, so the same fault comes first.
        rw [render_seq_factor ha hb, render_seq_factor hb hc]
        simp only [bind_assoc, pure_bind, String.append_assoc]

namespace Alike

variable {r r' s s' t : Regex}

theorem refl (r : Regex) : Alike r r :=
  ⟨rfl, rfl, rfl, rfl, fun _ => rfl⟩

theorem trans (h : Alike r s) (h' : Alike s t) : Alike r t where
  isEmpty := h.isEmpty.trans h'.isEmpty
  needsGroup := h.needsGroup.trans h'.needsGroup
  classPattern := h.classPattern.trans h'.classPattern
  branchPatterns := h.branchPatterns.trans h'.branchPatterns
  render := fun context => (h.render context).trans (h'.render context)

theorem assoc (a b c : Regex) : Alike (.seq (.seq a b) c) (.seq a (.seq b c)) where
  isEmpty := Bool.and_assoc ..
  needsGroup := rfl
  classPattern := rfl
  branchPatterns := branchPatterns_congr rfl rfl rfl
  render := render_assoc a b c

theorem seq (h : Alike r r') (h' : Alike s s') : Alike (.seq r s) (.seq r' s') where
  isEmpty := by rw [Regex.isEmpty, Regex.isEmpty, h.isEmpty, h'.isEmpty]
  needsGroup := rfl
  classPattern := rfl
  branchPatterns := branchPatterns_congr rfl rfl rfl
  render := fun context => by
    simp only [Regex.render, h.isEmpty, h'.isEmpty, h.render, h'.render]

theorem alt (h : Alike r r') (h' : Alike s s') : Alike (.alt r s) (.alt r' s') where
  isEmpty := rfl
  needsGroup := rfl
  classPattern := by rw [classPattern?, classPattern?, h.classPattern, h'.classPattern]
  branchPatterns := by
    rw [branches, branches, List.mapM_append, List.mapM_append, h.branchPatterns,
      h'.branchPatterns]
  render := fun context => by
    simp only [Regex.render, h.isEmpty, h'.isEmpty, h.render, h'.render, repeated_congr h,
      repeated_congr h']

theorem minus (h : Alike r r') (h' : Alike s s') : Alike (.minus r s) (.minus r' s') where
  isEmpty := rfl
  needsGroup := rfl
  classPattern := rfl
  branchPatterns := branchPatterns_congr rfl rfl rfl
  render := fun context => by
    rw [Regex.render, Regex.render, h.classPattern, h'.branchPatterns]

theorem star (h : Alike r r') : Alike (.star r) (.star r') where
  isEmpty := rfl
  needsGroup := rfl
  classPattern := rfl
  branchPatterns := branchPatterns_congr rfl rfl rfl
  render := fun _ => repeated_congr h

theorem plus (h : Alike r r') : Alike (.plus r) (.plus r') where
  isEmpty := rfl
  needsGroup := rfl
  classPattern := rfl
  branchPatterns := branchPatterns_congr rfl rfl rfl
  render := fun _ => repeated_congr h

theorem opt (h : Alike r r') : Alike (.opt r) (.opt r') where
  isEmpty := rfl
  needsGroup := rfl
  classPattern := rfl
  branchPatterns := branchPatterns_congr rfl rfl rfl
  render := fun _ => repeated_congr h

theorem pattern_eq (h : Alike r s) : r.pattern = s.pattern := by
  unfold pattern
  rw [h.isEmpty, h.render]

end Alike

/-! ## Nesting to the right -/

theorem sequence_cons (r : Regex) {rs : List Regex} (h : rs ≠ []) :
    sequence (r :: rs) = .seq r (sequence rs) := by
  cases rs with
  | nil => exact absurd rfl h
  | cons s rs => rfl

/-- A sequence of two nested sequences is like the one of all their factors. -/
theorem alike_sequence_append {rs ss : List Regex} (hr : rs ≠ []) (hs : ss ≠ []) :
    Alike (.seq (sequence rs) (sequence ss)) (sequence (rs ++ ss)) := by
  induction rs with
  | nil => exact absurd rfl hr
  | cons r rest ih =>
    rw [List.cons_append, sequence_cons r (List.append_ne_nil_of_right_ne_nil rest hs)]
    by_cases hrest : rest = []
    · subst hrest
      exact .refl _
    · rw [sequence_cons r hrest]
      exact (Alike.assoc r (sequence rest) (sequence ss)).trans (.seq (.refl r) (ih hrest))

/-- An expression is like the one that nests the same factors to the right. -/
theorem alike_nested (r : Regex) : Alike r r.flat.nested := by
  induction r with
  | seq left right ihl ihr =>
    rw [flat, Flat.nested, Flat.nestedAll_append]
    have happend := alike_sequence_append (Flat.nestedAll_ne_nil (factors_flat_ne_nil left))
      (Flat.nestedAll_ne_nil (factors_flat_ne_nil right))
    rw [Flat.sequence_nestedAll_factors, Flat.sequence_nestedAll_factors] at happend
    exact (Alike.seq ihl ihr).trans happend
  | alt left right ihl ihr => exact .alt ihl ihr
  | minus left right ihl ihr => exact .minus ihl ihr
  | star body ih => exact .star ih
  | plus body ih => exact .plus ih
  | opt body ih => exact .opt ih
  | _ => exact .refl _

end Regex

open Regex

/-- Expressions that differ in the grouping of their sequences only have the same pattern, or
are refused with the same fault and so in the same words. -/
theorem grouping_irrelevant {r s : Regex} (h : r.flat = s.flat) : r.pattern = s.pattern := by
  have hr := (alike_nested r).pattern_eq
  have hs := (alike_nested s).pattern_eq
  rw [hr, hs, h]

/-- An option of four factors, of which the first is empty. The second is an alternation with a
sequence of its own. -/
def leftGrouped : Regex :=
  .opt (.seq (.seq (.word "") (.alt (.char "a") (.seq (.seq (.char "b") .eps) (.char "c"))))
    (.char "d"))

/-- The same factors, grouped to the right. -/
def rightGrouped : Regex :=
  .opt (.seq (.word "") (.seq (.alt (.char "a") (.seq (.char "b") (.seq .eps (.char "c"))))
    (.char "d")))

theorem grouping_irrelevant_nested : leftGrouped.flat = rightGrouped.flat ∧
    leftGrouped ≠ rightGrouped ∧ leftGrouped.pattern = rightGrouped.pattern ∧
    rightGrouped.pattern = .ok "((\"a\"|\"b\"\"c\")\"d\")?" :=
  ⟨rfl, by decide, grouping_irrelevant rfl, rfl⟩

end FlexSynth
