import FlexSynth.Proofs.Flex.Reading
import Mathlib.Algebra.BigOperators.Group.List.Basic

/-!
# How tightly tokens bind

What the reading of tokens makes of a row of tokens depends on where it stands. Three
strengths are told apart, each of which implies the next:

* `ReadsFactor ts L`: the tokens become one factor, so that a postfix operator after
  them takes all of them.
* `ReadsFactors ts L`: they become one factor or more of the branch being read.
* `ReadsBranches ts L`: at the start of a branch they become branches of the open
  parenthesis, the last of which can go on.

In each case `L` is the language of what they become. The constructions of patterns
are then lemmas: parentheses make a factor of branches, a row of factors is a row of
factors, `|` separates branches, and a postfix operator makes a factor of a factor.
-/

namespace FlexSynth.Flex

open scoped Computability

/-! ## The languages of stacks -/

/-- The words of some factors, the latest first, one after the other. -/
def sequenceLanguage (ps : List Pattern) : Language Char :=
  (ps.reverse.map Pattern.language).prod

def choiceLanguage (ps : List Pattern) : Language Char :=
  (ps.map Pattern.language).sum

theorem sequenceLanguage_singleton (p : Pattern) : sequenceLanguage [p] = p.language := by
  unfold sequenceLanguage
  exact List.prod_singleton

theorem sequenceLanguage_append (ps before : List Pattern) :
    sequenceLanguage (ps ++ before) = sequenceLanguage before * sequenceLanguage ps := by
  unfold sequenceLanguage
  rw [List.reverse_append, List.map_append, List.prod_append]

theorem choiceLanguage_append (ps before : List Pattern) :
    choiceLanguage (ps ++ before) = choiceLanguage ps + choiceLanguage before := by
  unfold choiceLanguage
  rw [List.map_append, List.sum_append]

theorem language_sequenceOf (ps : List Pattern) :
    (sequenceOf ps).language = sequenceLanguage ps := by
  induction ps with
  | nil => rfl
  | cons p before ih =>
    cases before with
    | nil => exact (sequenceLanguage_singleton p).symm
    | cons q before =>
      rw [← List.singleton_append, sequenceLanguage_append, ← ih, sequenceLanguage_singleton]
      rfl

theorem language_choiceOf (last : Pattern) (ps : List Pattern) :
    (choiceOf last ps).language = choiceLanguage ps + last.language := by
  induction ps generalizing last with
  | nil => exact (zero_add last.language).symm
  | cons p before ih =>
    have hcons : choiceLanguage (p :: before) = p.language + choiceLanguage before := by
      unfold choiceLanguage
      rw [List.map_cons, List.sum_cons]
    rw [hcons, add_comm p.language, ← ih p]
    rfl

def repeatLanguage : Repetition → Language Char → Language Char
  | .star, L => L∗
  | .plus, L => L * L∗
  | .opt, L => 1 + L

theorem language_repeatOf (op : Repetition) (p : Pattern) :
    (repeatOf op p).language = repeatLanguage op p.language := by
  cases op with
  | star => rfl
  | plus => exact Pattern.language_plus p
  | opt => exact Pattern.language_opt p

/-! ## Steps -/

/-- No operator waits for a bracket expression. -/
def Phase.Settled : Phase → Prop
  | .awaiting _ => False
  | _ => True

theorem Reading.run_cons {r r' : Reading} {t : Token} (h : r.step t = some r') (ts : List Token) :
    r.run (t :: ts) = r'.run ts := by
  unfold Reading.run
  rw [List.foldlM_cons, h]
  rfl

theorem Reading.run_append {r r' : Reading} {ts : List Token} (h : r.run ts = some r')
    (us : List Token) : r.run (ts ++ us) = r'.run us := by
  unfold Reading.run at *
  rw [List.foldlM_append, h]
  rfl

section

variable {f : Frame} {outer : List Frame} {phase : Phase}

theorem step_atom (h : phase.Settled) (p : Pattern) :
    Reading.step ⟨f, outer, phase⟩ (.atom p) = some ⟨f.push p, outer, .ordinary⟩ := by
  cases phase with
  | awaiting op => exact h.elim
  | ordinary => rfl
  | afterBracket => rfl

theorem step_bracket (h : phase.Settled) (s : CharSet) :
    Reading.step ⟨f, outer, phase⟩ (.bracket s) = some ⟨f.push (.set s), outer, .afterBracket⟩ := by
  cases phase with
  | awaiting op => exact h.elim
  | ordinary => rfl
  | afterBracket => rfl

theorem step_repetition (h : phase.Settled) (op : Repetition) (p : Pattern)
    (done before : List Pattern) :
    Reading.step ⟨⟨done, p :: before⟩, outer, phase⟩ (.repetition op) =
      some ⟨⟨done, repeatOf op p :: before⟩, outer, .ordinary⟩ := by
  cases phase with
  | awaiting op => exact h.elim
  | ordinary => rfl
  | afterBracket => rfl

theorem step_bar (h : phase.Settled) (done : List Pattern) {current : List Pattern}
    (hne : current ≠ []) :
    Reading.step ⟨⟨done, current⟩, outer, phase⟩ .bar =
      some ⟨⟨sequenceOf current :: done, []⟩, outer, .ordinary⟩ := by
  have hbar : Reading.bar? ⟨⟨done, current⟩, outer, phase⟩ =
      some ⟨⟨sequenceOf current :: done, []⟩, outer, .ordinary⟩ := if_neg hne
  cases phase with
  | awaiting op => exact h.elim
  | ordinary => exact hbar
  | afterBracket => exact hbar

theorem step_opening (h : phase.Settled) :
    Reading.step ⟨f, outer, phase⟩ .opening = some ⟨⟨[], []⟩, f :: outer, .ordinary⟩ := by
  cases phase with
  | awaiting op => exact h.elim
  | ordinary => rfl
  | afterBracket => rfl

theorem step_closing (h : phase.Settled) (done : List Pattern) {current : List Pattern}
    (hne : current ≠ []) :
    Reading.step ⟨⟨done, current⟩, f :: outer, phase⟩ .closing =
      some ⟨f.push (choiceOf (sequenceOf current) done), outer, .ordinary⟩ := by
  have hclosing : Reading.closing? ⟨⟨done, current⟩, f :: outer, phase⟩ =
      some ⟨f.push (choiceOf (sequenceOf current) done), outer, .ordinary⟩ := by
    unfold Reading.closing? Frame.close?
    rw [if_neg hne]
    rfl
  cases phase with
  | awaiting op => exact h.elim
  | ordinary => exact hclosing
  | afterBracket => exact hclosing

end

/-! ## Binding strengths -/

/-- The tokens become one factor, with the words of `L`. -/
def ReadsFactor (ts : List Token) (L : Language Char) : Prop :=
  ∀ done before outer phase, Phase.Settled phase →
    ∃ p phase', Phase.Settled phase' ∧ p.language = L ∧
      Reading.run ⟨⟨done, before⟩, outer, phase⟩ ts = some ⟨⟨done, p :: before⟩, outer, phase'⟩

/-- The tokens become factors of the branch being read, with the words of `L`. -/
def ReadsFactors (ts : List Token) (L : Language Char) : Prop :=
  ∀ done before outer phase, Phase.Settled phase →
    ∃ ps phase', Phase.Settled phase' ∧ ps ≠ [] ∧ sequenceLanguage ps = L ∧
      Reading.run ⟨⟨done, before⟩, outer, phase⟩ ts = some ⟨⟨done, ps ++ before⟩, outer, phase'⟩

/-- At the start of a branch, the tokens become branches with the words of `L`. -/
def ReadsBranches (ts : List Token) (L : Language Char) : Prop :=
  ∀ done outer phase, Phase.Settled phase →
    ∃ qs ps phase', Phase.Settled phase' ∧ ps ≠ [] ∧ choiceLanguage qs + sequenceLanguage ps = L ∧
      Reading.run ⟨⟨done, []⟩, outer, phase⟩ ts = some ⟨⟨qs ++ done, ps⟩, outer, phase'⟩

theorem ReadsFactor.factors {ts : List Token} {L : Language Char} (h : ReadsFactor ts L) :
    ReadsFactors ts L := by
  intro done before outer phase hphase
  obtain ⟨p, phase', hphase', hL, hrun⟩ := h done before outer phase hphase
  refine ⟨[p], phase', hphase', List.cons_ne_nil _ _, ?_, hrun⟩
  rw [sequenceLanguage_singleton, hL]

theorem ReadsFactors.branches {ts : List Token} {L : Language Char} (h : ReadsFactors ts L) :
    ReadsBranches ts L := by
  intro done outer phase hphase
  obtain ⟨ps, phase', hphase', hne, hL, hrun⟩ := h done [] outer phase hphase
  refine ⟨[], ps, phase', hphase', hne, ?_, by rw [hrun, List.append_nil]; rfl⟩
  exact (zero_add _).trans hL

theorem readsFactor_atom (p : Pattern) : ReadsFactor [.atom p] p.language := by
  intro done before outer phase hphase
  exact ⟨p, .ordinary, trivial, rfl, Reading.run_cons (step_atom hphase p) []⟩

/-- A postfix operator takes the factor before it. -/
theorem ReadsFactor.repetition {ts : List Token} {L : Language Char} (h : ReadsFactor ts L)
    (op : Repetition) : ReadsFactor (ts ++ [.repetition op]) (repeatLanguage op L) := by
  intro done before outer phase hphase
  obtain ⟨p, phase', hphase', hL, hrun⟩ := h done before outer phase hphase
  refine ⟨repeatOf op p, .ordinary, trivial, ?_, ?_⟩
  · rw [language_repeatOf, hL]
  · rw [Reading.run_append hrun]
    exact Reading.run_cons (step_repetition hphase' op p done before) []

theorem ReadsFactors.append {ts us : List Token} {L M : Language Char}
    (hfirst : ReadsFactors ts L) (hnext : ReadsFactors us M) : ReadsFactors (ts ++ us) (L * M) := by
  intro done before outer phase hphase
  obtain ⟨ps, phase₁, hphase₁, _, hL, hrun₁⟩ := hfirst done before outer phase hphase
  obtain ⟨qs, phase₂, hphase₂, hne, hM, hrun₂⟩ := hnext done (ps ++ before) outer phase₁ hphase₁
  refine ⟨qs ++ ps, phase₂, hphase₂, List.append_ne_nil_of_left_ne_nil hne ps, ?_, ?_⟩
  · rw [sequenceLanguage_append, hL, hM]
  · rw [Reading.run_append hrun₁, hrun₂, List.append_assoc]

theorem ReadsBranches.bar {ts us : List Token} {L M : Language Char}
    (hfirst : ReadsBranches ts L) (hnext : ReadsBranches us M) :
    ReadsBranches (ts ++ .bar :: us) (L + M) := by
  intro done outer phase hphase
  obtain ⟨qs, ps, phase₁, hphase₁, hne, hL, hrun₁⟩ := hfirst done outer phase hphase
  obtain ⟨qs', ps', phase₂, hphase₂, hne', hM, hrun₂⟩ :=
    hnext (sequenceOf ps :: (qs ++ done)) outer .ordinary trivial
  -- The bar turns the open branch of the first tokens into a finished one.
  refine ⟨qs' ++ (sequenceOf ps :: qs), ps', phase₂, hphase₂, hne', ?_, ?_⟩
  · have hcons : choiceLanguage (sequenceOf ps :: qs) = L := by
      rw [← hL, ← List.singleton_append, choiceLanguage_append, add_comm, ← language_sequenceOf]
      unfold choiceLanguage
      rw [List.map_singleton, List.sum_singleton]
    rw [choiceLanguage_append, hcons, ← hM, add_comm (choiceLanguage qs') L, add_assoc]
  · rw [Reading.run_append hrun₁, Reading.run_cons (step_bar hphase₁ _ hne), hrun₂,
      List.append_assoc]
    rfl

/-- Parentheses make one factor. -/
theorem ReadsBranches.parentheses {ts : List Token} {L : Language Char}
    (h : ReadsBranches ts L) : ReadsFactor (.opening :: (ts ++ [.closing])) L := by
  intro done before outer phase hphase
  obtain ⟨qs, ps, phase', hphase', hne, hL, hrun⟩ :=
    h [] (⟨done, before⟩ :: outer) .ordinary trivial
  refine ⟨choiceOf (sequenceOf ps) qs, .ordinary, trivial, ?_, ?_⟩
  · rw [language_choiceOf, language_sequenceOf, hL]
  · rw [Reading.run_cons (step_opening hphase), Reading.run_append hrun, List.append_nil]
    exact Reading.run_cons (step_closing hphase' qs hne) []

/-- A text that is read as branches has a pattern with their words. -/
theorem ReadsBranches.finish {ts : List Token} {L : Language Char} (h : ReadsBranches ts L) :
    ∃ r p, Reading.run {} ts = some r ∧ r.finish? = some p ∧ p.language = L := by
  obtain ⟨qs, ps, phase, hphase, hne, hL, hrun⟩ := h [] [] .ordinary trivial
  have hclose : Frame.close? ⟨qs ++ [], ps⟩ = some (choiceOf (sequenceOf ps) qs) := by
    unfold Frame.close?
    rw [if_neg hne, List.append_nil]
  refine ⟨_, choiceOf (sequenceOf ps) qs, hrun, ?_, ?_⟩
  · cases phase with
    | awaiting op => exact hphase.elim
    | ordinary => exact hclose
    | afterBracket => exact hclose
  · rw [language_choiceOf, language_sequenceOf, hL]

/-! ## Bracket expressions -/

/-- Operators, each with the bracket expression after it. -/
def joinedTokens (joined : List (SetOperator × CharSet)) : List Token :=
  joined.flatMap fun (op, t) => [.operator op, .bracket t]

/-- A bracket expression and those that operators join to it. -/
def setTokens (s : CharSet) (joined : List (SetOperator × CharSet)) : List Token :=
  .bracket s :: joinedTokens joined

theorem joinedTokens_append (joined more : List (SetOperator × CharSet)) :
    joinedTokens (joined ++ more) = joinedTokens joined ++ joinedTokens more := by
  exact List.flatMap_append

theorem setTokens_append (s : CharSet) (joined more : List (SetOperator × CharSet)) :
    setTokens s (joined ++ more) = setTokens s joined ++ joinedTokens more := by
  unfold setTokens
  rw [joinedTokens_append, List.cons_append]

/-- The set of joined bracket expressions: the operators are applied from left to
right. -/
def setOf (s : CharSet) (joined : List (SetOperator × CharSet)) : CharSet :=
  joined.foldl (fun left (op, right) => op.apply left right) s

theorem run_joined (joined : List (SetOperator × CharSet)) (s : CharSet)
    (done before : List Pattern) (outer : List Frame) :
    Reading.run ⟨⟨done, .set s :: before⟩, outer, .afterBracket⟩
        (joinedTokens joined) =
      some ⟨⟨done, .set (setOf s joined) :: before⟩, outer, .afterBracket⟩ := by
  -- From left to right: what has been joined so far takes the place of `s`.
  induction joined generalizing s with
  | nil => rfl
  | cons j joined ih =>
    obtain ⟨op, t⟩ := j
    exact ih (op.apply s t)

theorem readsFactor_setTokens (s : CharSet) (joined : List (SetOperator × CharSet)) :
    ReadsFactor (setTokens s joined) (singles fun c => (setOf s joined).contains c = true) := by
  intro done before outer phase hphase
  refine ⟨.set (setOf s joined), .afterBracket, trivial, rfl, ?_⟩
  unfold setTokens
  rw [Reading.run_cons (step_bracket hphase s)]
  exact run_joined joined s done before outer

theorem setOf_append (s : CharSet) (joined more : List (SetOperator × CharSet)) :
    setOf s (joined ++ more) = setOf (setOf s joined) more := by
  exact List.foldl_append

theorem contains_setOf_union (s : CharSet) (sets : List CharSet) (c : Char) :
    (setOf s (sets.map (SetOperator.union, ·))).contains c = true ↔
      ∃ t ∈ s :: sets, t.contains c = true := by
  induction sets generalizing s with
  | nil => simp [setOf]
  | cons t sets ih =>
    have hfirst : setOf s ((t :: sets).map (SetOperator.union, ·)) =
        setOf (s.union t) (sets.map (SetOperator.union, ·)) := rfl
    rw [hfirst, ih]
    simp only [List.mem_cons, exists_eq_or_imp, CharSet.contains, Bool.or_eq_true, or_assoc]

theorem contains_setOf_difference (s : CharSet) (sets : List CharSet) (c : Char) :
    (setOf s (sets.map (SetOperator.difference, ·))).contains c = true ↔
      s.contains c = true ∧ ¬∃ t ∈ sets, t.contains c = true := by
  induction sets generalizing s with
  | nil => simp [setOf]
  | cons t sets ih =>
    have hfirst : setOf s ((t :: sets).map (SetOperator.difference, ·)) =
        setOf (s.difference t) (sets.map (SetOperator.difference, ·)) := rfl
    rw [hfirst, ih, CharSet.contains, Bool.and_eq_true, Bool.not_eq_true', and_assoc]
    simp only [List.mem_cons, exists_eq_or_imp, not_or, Bool.not_eq_true]

end FlexSynth.Flex
