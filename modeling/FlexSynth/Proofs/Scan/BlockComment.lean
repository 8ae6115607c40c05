import FlexSynth.Proofs.Grammar.Loaded
import FlexSynth.Proofs.Scan.States
import FlexSynth.Proofs.Scan.Winner
import FlexSynth.Proofs.Text.Digits
import Mathlib.Data.List.Infix

/-!
# Block comments

After its start delimiter, a block comment is skipped through the first occurrence of its
end delimiter, or to the end of the input when there is none (`block_comment_skipped`).
Neither the delimiters nor the rest of the grammar make a difference.

Each form of block comments has a start state of its own, with three rules
(`rulesIn_commentState`): the end delimiter comes first, then two rules that skip a
character. So the end delimiter is taken wherever the input starts with it, even when it
is a single character, and everywhere else one character is skipped. Whether the skipped
text ends like the start of a delimiter plays no role, since the scan looks at every place
of the text anew.
-/

namespace FlexSynth

open Flex

/-! ## The rules of a form -/

/-- The rule of the start delimiter. -/
def openingRule (form : BlockForm) (state : String) : Rule where
  states := [StartState.initial]
  pattern := Text.cString form.start
  actions := [.begin state]
  note := delimiterNote "block comment" [form.start, form.stop]

/-- The rule of the end delimiter. -/
def closingRule (form : BlockForm) (state : String) : Rule :=
  .ofState state (Text.cString form.stop) [.begin StartState.initial]

def skippingRules (state : String) : List Rule :=
  [.ofState state "." [.skip "skip"], .ofState state "[\\n]" [.skip "skip"]]

theorem blockCommentRules_eq (form : BlockForm) (state : String) :
    blockCommentRules form state =
      openingRule form state :: closingRule form state :: skippingRules state :=
  rfl

theorem commentState_injective {m n : Nat} (h : commentState m = commentState n) : m = n := by
  have hne (n : Nat) : commentState 0 ≠ commentState (n + 1) := by
    intro h
    have hempty : "" = (n + 1).repr := (String.append_right_inj "COMMENT").mp h
    exact Nat.repr_ne_empty hempty.symm
  cases m with
  | zero =>
    cases n with
    | zero => rfl
    | succ n => exact absurd h (hne n)
  | succ m =>
    cases n with
    | zero => exact absurd h.symm (hne m)
    | succ n =>
      unfold commentState at h
      exact Text.repr_inj ((String.append_right_inj "COMMENT").mp h)

theorem commentState_ne_initial (n : Nat) : commentState n ≠ StartState.initial := fun h =>
  commentState_not_mem n (by rw [h]; exact List.mem_cons_self)

theorem filter_blockCommentRules (form : BlockForm) (m n : Nat) :
    (blockCommentRules form (commentState m)).filter (Rule.activeIn (commentState n)) =
      if m = n then closingRule form (commentState n) :: skippingRules (commentState n) else [] := by
  have hinitial := commentState_ne_initial n
  rw [blockCommentRules_eq]
  unfold openingRule closingRule skippingRules Rule.ofState
  split
  · next h => simp [h, Rule.activeIn, hinitial]
  · next h =>
    have hne : commentState n ≠ commentState m := fun hsame => h (commentState_injective hsame).symm
    simp [Rule.activeIn, hinitial, hne]

section

variable {g : LexicalGrammar} {options : GeneratorOptions} {translate : Translator}
  {s : Synthesis} {form : BlockForm} {n : Nat} {b : Buffers}

/-- Of the comment rules, those that pass a test are looked for in one form if the others have
none. -/
theorem filter_commentRules_of_form {forms : CommentForms} (hform : forms.block[n]? = some form)
    {p : Rule → Bool} (hline : ∀ delimiter, p (lineCommentRule delimiter) = false)
    (hother : ∀ other m, m ≠ n → (blockCommentRules other (commentState m)).filter p = []) :
    forms.rules.filter p = (blockCommentRules form (commentState n)).filter p := by
  have hlines : (forms.line.map lineCommentRule).filter p = [] := by
    rw [List.filter_eq_nil_iff]
    intro r hr hp
    obtain ⟨delimiter, _, rfl⟩ := List.mem_map.mp hr
    exact Bool.false_ne_true ((hline delimiter).symm.trans hp)
  -- The index of the form stands once among the indices of all forms.
  obtain ⟨before, after, hsplit⟩ := List.append_of_mem (List.mk_mem_zipIdx_iff_getElem?.mpr hform)
  have hindices : (forms.block.zipIdx.map Prod.snd).Nodup := by
    rw [List.zipIdx_map_snd]
    exact List.nodup_range'
  rw [hsplit, List.map_append, List.map_cons, List.nodup_middle, List.nodup_cons,
    List.mem_append, not_or] at hindices
  have hnone {forms : List (BlockForm × Nat)} (h : n ∉ forms.map Prod.snd) :
      forms.flatMap (fun form =>
        (blockCommentRules form.1 (commentState form.2)).filter p) = [] := by
    rw [List.flatMap_eq_nil_iff]
    intro form hmem
    exact hother _ _ fun hsame => h (List.mem_map.mpr ⟨form, hmem, hsame⟩)
  unfold CommentForms.rules
  rw [List.filter_append, hlines, List.nil_append, List.filter_flatMap, hsplit,
    List.flatMap_append, List.flatMap_cons, hnone hindices.1.1, hnone hindices.1.2,
    List.nil_append, List.append_nil]

theorem filter_commentRules {forms : CommentForms} (hform : forms.block[n]? = some form) :
    forms.rules.filter (Rule.activeIn (commentState n)) =
      closingRule form (commentState n) :: skippingRules (commentState n) := by
  have hline (delimiter : String) :
      (lineCommentRule delimiter).activeIn (commentState n) = false := by
    simp [Rule.activeIn, lineCommentRule, commentState_ne_initial]
  rw [filter_commentRules_of_form hform hline, filter_blockCommentRules, if_pos rfl]
  intro other m hm
  rw [filter_blockCommentRules, if_neg hm]

/-- In the state of a form there are the rules of the form and no others. -/
theorem rulesIn_commentState (hs : synthesize g options translate = .ok s)
    (hform : g.comments.block[n]? = some form) :
    s.description.rulesIn (commentState n) =
      closingRule form (commentState n) :: skippingRules (commentState n) := by
  have hinitial := commentState_ne_initial n
  have hliteral : (literalRules g options.charLiteralErrors).filter
      (Rule.activeIn (commentState n)) = [] := by
    rw [List.filter_eq_nil_iff]
    intro r hr hactive
    have hstates : ∀ state ∈ r.states, state ∈ StartState.initial :: StartState.literals :=
      forall_mem_literalRules (P := fun r => ∀ state ∈ r.states,
        state ∈ StartState.initial :: StartState.literals) (by decide) (by decide) hr
    exact commentState_not_mem n (hstates _ (List.contains_iff_mem.mp hactive))
  rw [rulesIn_of_ne_initial hs hinitial, filter_commentRules hform, hliteral, List.append_nil]

/-! ## One step inside of a comment -/

theorem isSingle_skippingRules (hs : synthesize g options translate = .ok s) {r : Rule}
    (hr : r ∈ skippingRules (commentState n)) : s.description.isSingle r = true := by
  have hpattern : r.pattern = "." ∨ r.pattern = "[\\n]" := by
    rcases List.mem_pair.mp hr with rfl | rfl
    · exact .inl rfl
    · exact .inr rfl
  rw [isSingle_of_synthesize hs]
  rcases hpattern with h | h <;> rw [h] <;> decide

theorem actions_of_mem_skippingRules {r : Rule} (hr : r ∈ skippingRules (commentState n)) :
    r.actions = [.skip "skip"] := by
  rcases List.mem_pair.mp hr with rfl | rfl <;> rfl

theorem language_closingRule (hs : synthesize g options translate = .ok s) (state : String) :
    s.description.language (closingRule form state) = {form.stop.toList} :=
  language_cString hs rfl

/-- Where the input starts with the end delimiter, the comment ends. -/
theorem scans_stop (hs : synthesize g options translate = .ok s)
    (hform : g.comments.block[n]? = some form) (hstop : form.stop ≠ "") (rest : List Char) :
    Scans s.description ⟨commentState n, form.stop.toList ++ rest, b⟩ []
      ⟨StartState.initial, rest, b⟩ := by
  have hlanguage : s.description.language (closingRule form (commentState n)) =
      {form.stop.toList} := language_closingRule hs (commentState n)
  have hlength := Description.matchLength_of_prefix hlanguage
    (List.prefix_append form.stop.toList rest)
  have hpos : 0 < form.stop.toList.length := List.length_pos_iff.mpr (by simpa using hstop)
  -- The other rules match one character at most, and this one stands before them.
  have hwinner : s.description.winner? (commentState n) (form.stop.toList ++ rest) =
      some (closingRule form (commentState n)) := by
    rw [Description.winner?_eq_some_iff_firstLongest, rulesIn_commentState hs hform]
    refine ⟨[], skippingRules (commentState n), rfl, by rwa [hlength], by simp, ?_⟩
    intro r hr
    rw [hlength]
    exact (Description.matchLength_le_one_of_isSingle (isSingle_skippingRules hs hr)).trans hpos
  have hactions : runActions form.stop.toList (commentState n) b none
      (closingRule form (commentState n)).actions = .ok ⟨StartState.initial, b, none⟩ := rfl
  have hmatched : (form.stop.toList ++ rest).take (s.description.matchLength
      (form.stop.toList ++ rest) (closingRule form (commentState n))) = form.stop.toList := by
    rw [hlength, List.take_left]
  have hstep := Description.step_of_winner? (c := ⟨commentState n, form.stop.toList ++ rest, b⟩)
    hwinner hmatched hactions
  rw [List.drop_left] at hstep
  exact .of_step hstep

/-- Everywhere else, one character is skipped. -/
theorem scans_skipped (hs : synthesize g options translate = .ok s)
    (hform : g.comments.block[n]? = some form) {c : Char} {rest : List Char}
    (hother : ¬form.stop.toList <+: c :: rest) :
    Scans s.description ⟨commentState n, c :: rest, b⟩ [] ⟨commentState n, rest, b⟩ := by
  have hstate : commentState n ∈ g.comments.states :=
    mem_commentStates.mpr ⟨form, n, List.mk_mem_zipIdx_iff_getElem?.mpr hform, rfl⟩
  obtain ⟨r, hr, hmatch⟩ := matches_comment hs hstate c
  have hmatched : 0 < s.description.matchLength (c :: rest) r := Description.matchLength_pos hmatch
  obtain ⟨w, hwinner⟩ := Description.winner?_isSome_of_pos hr hmatched
  have hfirst := Description.winner?_eq_some_iff_firstLongest.mp hwinner
  have hpos := hfirst.pos
  have hw : w ∈ skippingRules (commentState n) := by
    rw [rulesIn_commentState hs hform] at hfirst
    rcases List.mem_cons.mp hfirst.mem with rfl | hw
    · rw [Description.matchLength_of_literal (language_closingRule hs _), if_neg hother] at hpos
      exact absurd hpos (Nat.lt_irrefl 0)
    · exact hw
  have hone : s.description.matchLength (c :: rest) w = 1 :=
    le_antisymm (Description.matchLength_le_one_of_isSingle (isSingle_skippingRules hs hw)) hpos
  have hactions : runActions [c] (commentState n) b none w.actions =
      .ok ⟨commentState n, b, none⟩ := by
    rw [actions_of_mem_skippingRules hw]
    rfl
  exact .of_step (Description.step_of_winner? (c := ⟨commentState n, c :: rest, b⟩) hwinner
    (by rw [hone]; rfl) hactions)

/-! ## A whole comment -/

/-- A comment is skipped through the first occurrence of the end delimiter. -/
theorem scans_through (hs : synthesize g options translate = .ok s)
    (hform : g.comments.block[n]? = some form) (hstop : form.stop ≠ "") {before after : List Char}
    (hfirst : ∀ k < before.length,
      ¬form.stop.toList <+: (before ++ form.stop.toList ++ after).drop k) :
    Scans s.description ⟨commentState n, before ++ form.stop.toList ++ after, b⟩ []
      ⟨StartState.initial, after, b⟩ := by
  induction before with
  | nil => exact scans_stop hs hform hstop after
  | cons c before ih =>
    have hskipped := scans_skipped (b := b) hs hform (hfirst 0 (Nat.succ_pos _))
    exact hskipped.trans (ih fun k hk => hfirst (k + 1) (Nat.succ_lt_succ hk))

/-- Without the end delimiter, all that is left is skipped. -/
theorem scans_to_end (hs : synthesize g options translate = .ok s)
    (hform : g.comments.block[n]? = some form) {u : List Char} (hnone : ¬form.stop.toList <:+: u) :
    Scans s.description ⟨commentState n, u, b⟩ [] ⟨commentState n, [], b⟩ := by
  induction u with
  | nil => exact .refl _
  | cons c u ih =>
    rw [List.infix_cons_iff, not_or] at hnone
    exact (scans_skipped hs hform hnone.1).trans (ih hnone.2)

/-- What occurs in a text has a first occurrence. -/
theorem exists_first_occurrence {text u : List Char} (h : text <:+: u) :
    ∃ before after, u = before ++ text ++ after ∧ ∀ k < before.length, ¬text <+: u.drop k := by
  induction u with
  | nil =>
    rw [List.infix_nil] at h
    exact ⟨[], [], by rw [h]; rfl, by simp⟩
  | cons c u ih =>
    by_cases hstarts : text <+: c :: u
    · obtain ⟨after, hafter⟩ := hstarts
      exact ⟨[], after, hafter.symm, by simp⟩
    · obtain ⟨before, after, rfl, hfirst⟩ := ih ((List.infix_cons_iff.mp h).resolve_left hstarts)
      refine ⟨c :: before, after, rfl, ?_⟩
      intro k hk
      cases k with
      | zero => exact hstarts
      | succ k => exact hfirst k (Nat.lt_of_succ_lt_succ hk)

/-- At the end of the input, a scan stops in a comment. -/
theorem step_comment_nil (hs : synthesize g options translate = .ok s)
    (hform : g.comments.block[n]? = some form) :
    s.description.step ⟨commentState n, [], b⟩ = .ended := by
  have hnone : (s.description.rulesIn (commentState n)).find? Rule.isEndOfInput = none := by
    rw [rulesIn_commentState hs hform, List.find?_eq_none]
    intro r hr hend
    have hstarts : startsPattern r.pattern = true := by
      rcases List.mem_cons.mp hr with rfl | hr
      · exact startsPattern_cString form.stop
      · rcases List.mem_pair.mp hr with rfl | rfl
        · exact (by decide : startsPattern "." = true)
        · exact (by decide : startsPattern "[\\n]" = true)
    exact ne_endOfInput_of_startsPattern hstarts (beq_iff_eq.mp hend)
  rw [Description.step_eq_ended_iff]
  refine ⟨?_, rfl⟩
  unfold Description.select?
  rw [if_pos rfl, hnone]
  rfl

end

/-- From its start delimiter on, a block comment is skipped through the first occurrence of
its end delimiter. Without one, it is skipped to the end of the input, where the scan stops
in the state of the comment. No token is returned either way. -/
theorem block_comment_skipped {document : Json} {filename : String} {g : LexicalGrammar}
    {options : GeneratorOptions} {translate : Translator} {s : Synthesis}
    (hg : LexicalGrammar.ofJson document filename = .ok g)
    (hs : synthesize g options translate = .ok s) {form : BlockForm} {n : Nat}
    (hform : g.comments.block[n]? = some form) {rest : List Char}
    (hwinner : s.description.winner? StartState.initial rest =
      some (openingRule form (commentState n))) (b : Buffers) :
    ∃ u, rest = form.start.toList ++ u ∧
      (form.stop.toList <:+: u → ∃ before after, u = before ++ form.stop.toList ++ after ∧
        (∀ k < before.length, ¬form.stop.toList <+: u.drop k) ∧
        Scans s.description ⟨StartState.initial, rest, b⟩ [] ⟨StartState.initial, after, b⟩) ∧
      (¬form.stop.toList <:+: u →
        Scans s.description ⟨StartState.initial, rest, b⟩ [] ⟨commentState n, [], b⟩ ∧
        s.description.step ⟨commentState n, [], b⟩ = .ended) := by
  have hstop : form.stop ≠ "" :=
    ((wellFormed_of_ofJson hg).block_ne_empty form (List.mem_of_getElem? hform)).2
  have hactions : runActions form.start.toList StartState.initial b none
      (openingRule form (commentState n)).actions = .ok ⟨commentState n, b, none⟩ := rfl
  obtain ⟨u, hu, hstep⟩ := Description.step_of_literal
    (c := ⟨StartState.initial, rest, b⟩) (language_cString hs rfl) hwinner hactions
  have hopening : Scans s.description ⟨StartState.initial, rest, b⟩ [] ⟨commentState n, u, b⟩ :=
    .of_step hstep
  refine ⟨u, hu, ?_, ?_⟩
  · intro hinfix
    obtain ⟨before, after, rfl, hfirst⟩ := exists_first_occurrence hinfix
    exact ⟨before, after, rfl, hfirst, hopening.trans (scans_through hs hform hstop hfirst)⟩
  · intro hnone
    exact ⟨hopening.trans (scans_to_end hs hform hnone), step_comment_nil hs hform⟩

/-- A comment with another start delimiter in it, and an end delimiter after a star. -/
theorem block_comment_skipped_overlapping :
    LexicalGrammar.ofJson exampleDocument "example.json" = .ok exampleGrammar ∧
    exampleGrammar.comments.block[0]? = some ⟨"/*", "*/"⟩ ∧
    ∃ s, synthesize exampleGrammar { name := "example" } flexTranslator = .ok s ∧
      s.description.winner? StartState.initial "/* /* **/*/".toList =
        some (openingRule ⟨"/*", "*/"⟩ (commentState 0)) ∧
      ∃ before after, " /* **/*/".toList = before ++ "*/".toList ++ after ∧
        (∀ k < before.length, ¬"*/".toList <+: " /* **/*/".toList.drop k) ∧
        Scans s.description (.initial "/* /* **/*/".toList) [] (.initial after) := by
  have hopen : ∃ s, synthesize exampleGrammar { name := "example" } flexTranslator = .ok s ∧
      s.description.winner? StartState.initial "/* /* **/*/".toList =
        some (openingRule ⟨"/*", "*/"⟩ (commentState 0)) := ⟨_, rfl, by decide +kernel⟩
  obtain ⟨s, hs, hwinner⟩ := hopen
  obtain ⟨u, hu, hclosed, _⟩ := block_comment_skipped ofJson_exampleDocument hs rfl hwinner {}
  cases hu
  exact ⟨ofJson_exampleDocument, rfl, s, hs, hwinner, hclosed (by decide)⟩

end FlexSynth
