import FlexSynth.Proofs.Partial
import FlexSynth.Regex.Pattern

/-!
# Which expressions are rendered, and which are refused

`Renders r s` says that the pattern of `r` is put together from that of `s`. An expression is
refused just when one that is rendered for it has a fault of its own (`Faulty`), or when it is
empty itself (`exists_pattern_eq_error_iff`). The cause that is reported is one of these faults
(`fault_of_pattern`).

What is written for each kind of expression is said once (`render_seq_eq_ok_iff` and its
neighbours), so no proof about pattern texts needs to look into the translator.

An empty expression is never rendered inside of one that is not empty. Every case of the
translator looks for empty parts first, so the induction is over expressions that are not empty.
-/

namespace FlexSynth.Regex

open Partial

variable {r s left right body : Regex} {fault : PatternFault} {context : Context} {text : String}

/-! ## Definitions -/

/-- The expression is written as nothing at all. -/
inductive Void : Regex → Prop
  | eps : Void .eps
  | word : Void (.word "")
  | seq {left right : Regex} : Void left → Void right → Void (.seq left right)

/-- `Renders r s`: a pattern of `r` needs one of `s`. Empty factors and empty branches are left
out, and the operands of a difference are written in another way. -/
inductive Renders : Regex → Regex → Prop
  | self (r : Regex) : Renders r r
  | seqLeft {left right s : Regex} : ¬left.Void → Renders left s → Renders (.seq left right) s
  | seqRight {left right s : Regex} : ¬right.Void → Renders right s → Renders (.seq left right) s
  | altLeft {left right s : Regex} : ¬left.Void → Renders left s → Renders (.alt left right) s
  | altRight {left right s : Regex} : ¬right.Void → Renders right s → Renders (.alt left right) s
  | star {body s : Regex} : Renders body s → Renders (.star body) s
  | plus {body s : Regex} : Renders body s → Renders (.plus body) s
  | opt {body s : Regex} : Renders body s → Renders (.opt body) s

/-- A union of characters, sets of characters that are not empty, and named classes. -/
inductive ClassUnion : Regex → Prop
  | char (text : String) : ClassUnion (.char text)
  | oneOf {chars : String} : chars ≠ "" → ClassUnion (.oneOf chars)
  | any : ClassUnion .any
  | named (cls : CharClass) : ClassUnion (.named cls)
  | alt {left right : Regex} : ClassUnion left → ClassUnion right → ClassUnion (.alt left right)

/-- `Faulty s fault`: the expression has no pattern, whatever its parts have. -/
inductive Faulty : Regex → PatternFault → Prop
  | emptySet : Faulty (.oneOf "") .emptySet
  | emptyAlternation {left right : Regex} : left.Void → right.Void →
      Faulty (.alt left right) .emptyAlternation
  | star {body : Regex} : body.Void → Faulty (.star body) (.emptyOperand .star)
  | plus {body : Regex} : body.Void → Faulty (.plus body) (.emptyOperand .plus)
  | opt {body : Regex} : body.Void → Faulty (.opt body) (.emptyOperand .opt)
  | notClasses {left right : Regex} : ¬(left.ClassUnion ∧ right.ClassUnion) →
      Faulty (.minus left right) .notClasses

/-- The fault is that of an expression that has to be rendered. -/
def Blames (r : Regex) (fault : PatternFault) : Prop :=
  ∃ s, r.Renders s ∧ Faulty s fault

theorem Blames.mono (h : s.Blames fault) (hrenders : ∀ part, s.Renders part → r.Renders part) :
    r.Blames fault := by
  obtain ⟨part, hpart, hfault⟩ := h
  exact ⟨part, hrenders part hpart, hfault⟩

theorem Faulty.blames (h : Faulty r fault) : r.Blames fault :=
  ⟨r, .self r, h⟩

/-! ## The checks of the translator -/

theorem isEmpty_eq_true_iff : r.isEmpty = true ↔ r.Void := by
  constructor
  · intro h
    induction r with
    | word text =>
      have htext : text = "" := by simpa [isEmpty] using h
      rw [htext]
      exact .word
    | seq left right ihl ihr =>
      rw [isEmpty, Bool.and_eq_true] at h
      exact .seq (ihl h.1) (ihr h.2)
    | eps => exact .eps
    | _ => exact Bool.noConfusion h
  · intro h
    induction h with
    | eps => rfl
    | word => rfl
    | seq _ _ ihl ihr => rw [isEmpty, ihl, ihr, Bool.and_self]

theorem classPattern?_oneOf_eq_some_iff {chars : String} :
    (oneOf chars).classPattern? = some text ↔ chars ≠ "" ∧ text = bracket chars := by
  rw [classPattern?, Option.ite_none_left_eq_some, Option.some.injEq, eq_comm (a := text),
    String.isEmpty_iff]

theorem classPattern?_alt_eq_some_iff :
    (alt left right).classPattern? = some text ↔ ∃ l r, left.classPattern? = some l ∧
      right.classPattern? = some r ∧ text = l ++ "\x7b+\x7d" ++ r := by
  cases hl : left.classPattern? <;> cases hr : right.classPattern? <;>
    simp [classPattern?, hl, hr, eq_comm]

theorem exists_classPattern_iff : (∃ text, r.classPattern? = some text) ↔ r.ClassUnion := by
  constructor
  · rintro ⟨text, h⟩
    induction r generalizing text with
    | char chars => exact .char chars
    | oneOf chars => exact .oneOf (classPattern?_oneOf_eq_some_iff.mp h).1
    | alt left right ihl ihr =>
      obtain ⟨l, r, hl, hr, _⟩ := classPattern?_alt_eq_some_iff.mp h
      exact .alt (ihl l hl) (ihr r hr)
    | named cls => exact .named cls
    | any => exact .any
    | _ => cases h
  · intro h
    induction h with
    | char text => exact ⟨_, rfl⟩
    | oneOf hne => exact ⟨_, classPattern?_oneOf_eq_some_iff.mpr ⟨hne, rfl⟩⟩
    | any => exact ⟨_, rfl⟩
    | named cls => exact ⟨_, rfl⟩
    | alt _ _ ihl ihr =>
      obtain ⟨l, hl⟩ := ihl
      obtain ⟨r, hr⟩ := ihr
      exact ⟨_, classPattern?_alt_eq_some_iff.mpr ⟨l, r, hl, hr, rfl⟩⟩

/-- The branches of a union are classes just when the union is one. -/
theorem exists_branchPatterns_iff :
    (∃ texts, r.branches.mapM classPattern? = some texts) ↔ r.ClassUnion := by
  have hsingle (r : Regex) : (∃ texts, [r].mapM classPattern? = some texts) ↔ r.ClassUnion := by
    rw [← exists_classPattern_iff]
    cases h : r.classPattern? <;> simp [h]
  induction r with
  | alt left right ihl ihr =>
    rw [branches, List.mapM_append]
    constructor
    · rintro ⟨texts, h⟩
      obtain ⟨ls, hls, h⟩ := Option.bind_eq_some_iff.mp h
      obtain ⟨rs, hrs, _⟩ := Option.bind_eq_some_iff.mp h
      exact .alt (ihl.mp ⟨ls, hls⟩) (ihr.mp ⟨rs, hrs⟩)
    · intro h
      cases h with
      | alt hl hr =>
        obtain ⟨ls, hls⟩ := ihl.mpr hl
        obtain ⟨rs, hrs⟩ := ihr.mpr hr
        exact ⟨ls ++ rs, by rw [hls, hrs]; rfl⟩
  | _ => exact hsingle _

/-! ## What is written -/

section

variable {x y : Except PatternFault String} {join : String → String → String}

theorem joined_eq_ok_iff : (do let l ← x; let r ← y; return join l r) = .ok text ↔
    ∃ l r, x = .ok l ∧ y = .ok r ∧ text = join l r := by
  constructor
  · intro h
    obtain ⟨l, hl, h⟩ := bind_eq_ok_iff.mp h
    obtain ⟨r, hr, h⟩ := bind_eq_ok_iff.mp h
    cases h
    exact ⟨l, r, hl, hr, rfl⟩
  · rintro ⟨l, r, rfl, rfl, rfl⟩
    rfl

/-- Two texts are put together unless one of them is refused, and the first refusal counts. -/
theorem joined_eq_error (h : (do let l ← x; let r ← y; return join l r) = .error fault) :
    x = .error fault ∨ y = .error fault := by
  rcases bind_eq_error_iff.mp h with h | ⟨l, _, h⟩
  · exact .inl h
  · rcases bind_eq_error_iff.mp h with h | ⟨r, _, h⟩
    · exact .inr h
    · cases h

theorem joined_refused (h : (∃ fault, x = .error fault) ∨ ∃ fault, y = .error fault) :
    ∃ fault, (do let l ← x; let r ← y; return join l r) = .error fault := by
  cases x with
  | error fault => exact ⟨fault, rfl⟩
  | ok l =>
    obtain ⟨fault, rfl⟩ := h.resolve_left nofun
    exact ⟨fault, rfl⟩

end

theorem repeated_eq_ok_iff {op : Repetition} :
    repeated op body body.render = .ok text ↔ ¬body.Void ∧
      ∃ inner, body.render (if body.needsGroup then .whole else .operand) = .ok inner ∧
        text = grouped body.needsGroup inner ++ op.symbol := by
  unfold repeated
  by_cases hvoid : body.Void
  · rw [if_pos (isEmpty_eq_true_iff.mpr hvoid)]
    exact iff_of_false nofun fun h => h.1 hvoid
  · rw [if_neg (mt isEmpty_eq_true_iff.mp hvoid), bind_eq_ok_iff, and_iff_right hvoid]
    simp only [pure, Except.pure, Except.ok.injEq, eq_comm (a := text)]

theorem render_oneOf_eq_ok_iff {chars : String} :
    (oneOf chars).render context = .ok text ↔ chars ≠ "" ∧ text = bracket chars := by
  by_cases hempty : chars = ""
  · rw [hempty]
    exact iff_of_false nofun fun h => h.1 rfl
  · rw [render, if_neg (mt String.isEmpty_iff.mp hempty), Except.ok.injEq, eq_comm (a := text),
      and_iff_right hempty]

/-- A sequence is written as its factors, without those that are empty. -/
theorem render_seq_eq_ok_iff :
    (seq left right).render context = .ok text ↔
      (left.Void ∧ right.render context = .ok text) ∨
      (¬left.Void ∧ right.Void ∧ left.render context = .ok text) ∨
      (¬left.Void ∧ ¬right.Void ∧ ∃ l r, left.render .factor = .ok l ∧
        right.render .factor = .ok r ∧ text = grouped (context = .operand) (l ++ r)) := by
  rw [render]
  by_cases hleft : left.Void
  · simp [isEmpty_eq_true_iff.mpr hleft, hleft]
  · rw [if_neg (mt isEmpty_eq_true_iff.mp hleft)]
    by_cases hright : right.Void
    · simp [isEmpty_eq_true_iff.mpr hright, hleft, hright]
    · rw [if_neg (mt isEmpty_eq_true_iff.mp hright), joined_eq_ok_iff]
      simp [hleft, hright]

/-- Beside an empty branch, the other one is written as an option. -/
theorem render_alt_eq_ok_iff :
    (alt left right).render context = .ok text ↔
      (left.Void ∧ repeated .opt right right.render = .ok text) ∨
      (¬left.Void ∧ right.Void ∧ repeated .opt left left.render = .ok text) ∨
      (¬left.Void ∧ ¬right.Void ∧ ∃ l r, left.render .branch = .ok l ∧
        right.render .branch = .ok r ∧
        text = grouped (context = .factor ∨ context = .operand) (l ++ "|" ++ r)) := by
  rw [render]
  by_cases hleft : left.Void
  · rw [if_pos (isEmpty_eq_true_iff.mpr hleft)]
    by_cases hright : right.Void
    · simp [isEmpty_eq_true_iff.mpr hright, repeated_eq_ok_iff, hleft, hright]
    · simp [mt isEmpty_eq_true_iff.mp hright, hleft]
  · rw [if_neg (mt isEmpty_eq_true_iff.mp hleft)]
    by_cases hright : right.Void
    · simp [isEmpty_eq_true_iff.mpr hright, hleft, hright]
    · rw [if_neg (mt isEmpty_eq_true_iff.mp hright), joined_eq_ok_iff]
      simp [hleft, hright]

theorem render_minus_eq_ok_iff :
    (minus left right).render context = .ok text ↔ ∃ l rs, left.classPattern? = some l ∧
      right.branches.mapM classPattern? = some rs ∧
      text = l ++ String.join (rs.map ("\x7b-\x7d" ++ ·)) := by
  rw [render]
  cases left.classPattern? <;> cases right.branches.mapM classPattern? <;>
    simp [eq_comm (a := text)]

/-! ## What is refused -/

theorem render_minus_eq_error_iff :
    (minus left right).render context = .error fault ↔ Faulty (.minus left right) fault := by
  rw [render]
  constructor
  · intro h
    split at h
    · cases h
    · next hnone =>
      cases h
      refine .notClasses ?_
      rintro ⟨hl, hr⟩
      obtain ⟨l, hl⟩ := exists_classPattern_iff.mpr hl
      obtain ⟨rs, hrs⟩ := exists_branchPatterns_iff.mpr hr
      exact hnone l rs hl hrs
  · intro h
    cases h with
    | notClasses hnone =>
      split
      · next l rs hl hrs =>
        have hclasses := And.intro (exists_classPattern_iff.mp ⟨l, hl⟩)
          (exists_branchPatterns_iff.mp ⟨rs, hrs⟩)
        exact absurd hclasses hnone
      · rfl

/-- A repetition is refused when its body is empty or refused. -/
theorem repeated_eq_error_iff {op : Repetition} :
    repeated op body body.render = .error fault ↔ body.Void ∧ fault = .emptyOperand op ∨
      ¬body.Void ∧ body.render (if body.needsGroup then .whole else .operand) = .error fault := by
  unfold repeated
  rw [← isEmpty_eq_true_iff]
  split
  · next hempty =>
    rw [Except.error.injEq]
    simp only [hempty, true_and, not_true_eq_false, false_and, or_false]
    exact eq_comm
  · next hempty =>
    rw [bind_eq_error_iff]
    simp only [hempty, pure, Except.pure, reduceCtorEq, and_false, exists_false, or_false,
      false_and, Bool.false_eq_true, not_false_eq_true, true_and, false_or]

/-! ## Faults that are found -/

theorem blames_of_repeated {op : Repetition} (hfaulty : body.Void → Faulty r (.emptyOperand op))
    (hbody : ∀ context, ¬body.Void → body.render context = .error fault → r.Blames fault)
    (h : repeated op body body.render = .error fault) : r.Blames fault := by
  rcases repeated_eq_error_iff.mp h with ⟨hvoid, rfl⟩ | ⟨hvoid, h⟩
  · exact (hfaulty hvoid).blames
  · exact hbody _ hvoid h

/-- The refusal of an expression that is not empty comes from one that is rendered for it. -/
theorem blames_of_render (hr : ¬r.Void) (h : r.render context = .error fault) : r.Blames fault := by
  induction r generalizing context fault with
  | char text | word text | named cls | any => cases h
  | oneOf chars =>
    rw [render] at h
    split at h
    · next hempty =>
      cases h
      have hchars : chars = "" := by simpa using hempty
      exact hchars ▸ Faulty.emptySet.blames
    · cases h
  | seq left right ihl ihr =>
    have hl (context : Context) (hleft : ¬left.Void) (h : left.render context = .error fault) :
        (seq left right).Blames fault := (ihl hleft h).mono fun _ => .seqLeft hleft
    have hr' (context : Context) (hright : ¬right.Void) (h : right.render context = .error fault) :
        (seq left right).Blames fault := (ihr hright h).mono fun _ => .seqRight hright
    rw [render] at h
    by_cases hleft : left.Void
    · rw [if_pos (isEmpty_eq_true_iff.mpr hleft)] at h
      exact hr' _ (fun hright => hr (.seq hleft hright)) h
    · rw [if_neg (mt isEmpty_eq_true_iff.mp hleft)] at h
      by_cases hright : right.Void
      · rw [if_pos (isEmpty_eq_true_iff.mpr hright)] at h
        exact hl _ hleft h
      · rw [if_neg (mt isEmpty_eq_true_iff.mp hright)] at h
        exact (joined_eq_error h).elim (hl _ hleft) (hr' _ hright)
  | alt left right ihl ihr =>
    have hl (context : Context) (hleft : ¬left.Void) (h : left.render context = .error fault) :
        (alt left right).Blames fault := (ihl hleft h).mono fun _ => .altLeft hleft
    have hr' (context : Context) (hright : ¬right.Void) (h : right.render context = .error fault) :
        (alt left right).Blames fault := (ihr hright h).mono fun _ => .altRight hright
    rw [render] at h
    by_cases hleft : left.Void
    · rw [if_pos (isEmpty_eq_true_iff.mpr hleft)] at h
      by_cases hright : right.Void
      · rw [if_pos (isEmpty_eq_true_iff.mpr hright)] at h
        cases h
        exact (Faulty.emptyAlternation hleft hright).blames
      · rw [if_neg (mt isEmpty_eq_true_iff.mp hright)] at h
        exact blames_of_repeated (absurd · hright) hr' h
    · rw [if_neg (mt isEmpty_eq_true_iff.mp hleft)] at h
      by_cases hright : right.Void
      · rw [if_pos (isEmpty_eq_true_iff.mpr hright)] at h
        exact blames_of_repeated (absurd · hleft) hl h
      · rw [if_neg (mt isEmpty_eq_true_iff.mp hright)] at h
        exact (joined_eq_error h).elim (hl _ hleft) (hr' _ hright)
  | minus left right _ _ => exact (render_minus_eq_error_iff.mp h).blames
  | star body ih => exact blames_of_repeated .star (fun _ hb h => (ih hb h).mono fun _ => .star) h
  | plus body ih => exact blames_of_repeated .plus (fun _ hb h => (ih hb h).mono fun _ => .plus) h
  | opt body ih => exact blames_of_repeated .opt (fun _ hb h => (ih hb h).mono fun _ => .opt) h
  | eps => exact absurd .eps hr

/-! ## Faults that are reported -/

theorem repeated_refused {op : Repetition}
    (h : body.Void ∨ ∀ context, ∃ fault, body.render context = .error fault) :
    ∃ fault, repeated op body body.render = .error fault := by
  by_cases hvoid : body.Void
  · exact ⟨_, repeated_eq_error_iff.mpr (.inl ⟨hvoid, rfl⟩)⟩
  · obtain ⟨fault, hfault⟩ := (h.resolve_left hvoid) _
    exact ⟨fault, repeated_eq_error_iff.mpr (.inr ⟨hvoid, hfault⟩)⟩

/-- An expression with a fault of its own is refused in every context. -/
theorem Faulty.refused (h : Faulty r fault) (context : Context) :
    ∃ fault, r.render context = .error fault := by
  cases h with
  | emptySet => exact ⟨_, rfl⟩
  | emptyAlternation hleft hright =>
    refine ⟨.emptyAlternation, ?_⟩
    rw [render, if_pos (isEmpty_eq_true_iff.mpr hleft), if_pos (isEmpty_eq_true_iff.mpr hright)]
  | star hbody | plus hbody | opt hbody => exact repeated_refused (.inl hbody)
  | notClasses hnone => exact ⟨_, render_minus_eq_error_iff.mpr (.notClasses hnone)⟩

/-- One faulty expression among those that are rendered is enough for a refusal. -/
theorem Renders.refused (h : r.Renders s) (hs : Faulty s fault) (context : Context) :
    ∃ fault, r.render context = .error fault := by
  induction h generalizing context with
  | self r => exact hs.refused context
  | seqLeft hleft _ ih =>
    rw [render, if_neg (mt isEmpty_eq_true_iff.mp hleft)]
    split
    · exact ih hs context
    · exact joined_refused (.inl (ih hs .factor))
  | seqRight hright _ ih =>
    rw [render, if_neg (mt isEmpty_eq_true_iff.mp hright)]
    split
    · exact ih hs context
    · exact joined_refused (.inr (ih hs .factor))
  | altLeft hleft _ ih =>
    rw [render, if_neg (mt isEmpty_eq_true_iff.mp hleft)]
    split
    · exact repeated_refused (.inr (ih hs))
    · exact joined_refused (.inl (ih hs .branch))
  | altRight hright _ ih =>
    rw [render, if_neg (mt isEmpty_eq_true_iff.mp hright)]
    split
    · exact repeated_refused (.inr (ih hs))
    · rw [if_neg (mt isEmpty_eq_true_iff.mp hright)]
      exact joined_refused (.inr (ih hs .branch))
  | star _ ih | plus _ ih | opt _ ih => exact repeated_refused (.inr (ih hs))

/-! ## Patterns -/

/-- The cause of a refusal: the expression is empty, or one that is rendered for it has the
fault. -/
theorem fault_of_pattern (h : r.pattern = .error fault) :
    r.Void ∧ fault = .emptyExpression ∨ ¬r.Void ∧ r.Blames fault := by
  unfold pattern at h
  by_cases hr : r.Void
  · rw [if_pos (isEmpty_eq_true_iff.mpr hr)] at h
    cases h
    exact .inl ⟨hr, rfl⟩
  · rw [if_neg (mt isEmpty_eq_true_iff.mp hr)] at h
    exact .inr ⟨hr, blames_of_render hr h⟩

theorem exists_pattern_eq_error_iff :
    (∃ fault, r.pattern = .error fault) ↔ r.Void ∨ ∃ fault, r.Blames fault := by
  constructor
  · rintro ⟨fault, h⟩
    exact (fault_of_pattern h).imp And.left fun h => ⟨fault, h.2⟩
  · unfold pattern
    by_cases hr : r.Void
    · intro _
      exact ⟨_, if_pos (isEmpty_eq_true_iff.mpr hr)⟩
    · rw [if_neg (mt isEmpty_eq_true_iff.mp hr)]
      intro h
      obtain ⟨fault, s, hs, hfault⟩ := h.resolve_left hr
      exact hs.refused hfault .whole

/-- What is rendered for an expression with a pattern is not empty. -/
theorem Renders.not_void (h : r.Renders s) (hr : ¬r.Void) (hnone : ∀ fault, ¬r.Blames fault) :
    ¬s.Void := by
  induction h with
  | self r => exact hr
  | seqLeft hleft _ ih =>
    exact ih hleft fun fault h => hnone fault (h.mono fun _ => .seqLeft hleft)
  | seqRight hright _ ih =>
    exact ih hright fun fault h => hnone fault (h.mono fun _ => .seqRight hright)
  | altLeft hleft _ ih =>
    exact ih hleft fun fault h => hnone fault (h.mono fun _ => .altLeft hleft)
  | altRight hright _ ih =>
    exact ih hright fun fault h => hnone fault (h.mono fun _ => .altRight hright)
  | star _ ih =>
    exact ih (fun hbody => hnone _ (Faulty.star hbody).blames)
      fun fault h => hnone fault (h.mono fun _ => .star)
  | plus _ ih =>
    exact ih (fun hbody => hnone _ (Faulty.plus hbody).blames)
      fun fault h => hnone fault (h.mono fun _ => .plus)
  | opt _ ih =>
    exact ih (fun hbody => hnone _ (Faulty.opt hbody).blames)
      fun fault h => hnone fault (h.mono fun _ => .opt)

end FlexSynth.Regex
