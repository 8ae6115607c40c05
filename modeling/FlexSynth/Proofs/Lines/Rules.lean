import FlexSynth.Proofs.Grammar.Loaded
import FlexSynth.Proofs.Lines.Statements
import FlexSynth.Proofs.Scan.Rules
import FlexSynth.Proofs.Terminals

/-!
# The lines of rules can be read back

Each rule of a scanner is one line of its description, and reading the line gives the
states, the pattern and the action text of the rule (`Rule.Legible.readLine?_line`). No
character of a keyword, a delimiter or a class ends a pattern or a line. Only a bracket
expression that flex takes to be open can keep the line from being read.

What makes a rule readable is stated of single rules: its names are words and its actions
legible (`Rule.Legible`), and its pattern is sheltered. A legible rule is known by its line
(`Rule.Legible.eq_of_line_eq`), and every rule of a scanner is legible
(`RuleOrigin.legible`).
-/

namespace FlexSynth

open Flex Partial

/-! ## Legible rules -/

/-- The rule is one line, which can be read back if its pattern is sheltered. -/
structure Rule.Legible (r : Rule) : Prop where
  states_ne_nil : r.states ≠ []
  states : ∀ state ∈ r.states, isWord state = true
  pattern : '\n' ∉ r.pattern.toList
  actions_ne_nil : r.actions ≠ []
  actions : ∀ a ∈ r.actions, a.Legible
  note : ∀ note ∈ r.note, note ≠ "" ∧ '\n' ∉ note.toList

instance : DecidablePred Rule.Legible := fun r =>
  decidable_of_iff (r.states ≠ [] ∧ (∀ state ∈ r.states, isWord state = true) ∧
      '\n' ∉ r.pattern.toList ∧ r.actions ≠ [] ∧ (∀ a ∈ r.actions, a.Legible) ∧
      ∀ note ∈ r.note, note ≠ "" ∧ '\n' ∉ note.toList)
    ⟨fun ⟨h₁, h₂, h₃, h₄, h₅, h₆⟩ => ⟨h₁, h₂, h₃, h₄, h₅, h₆⟩,
      fun ⟨h₁, h₂, h₃, h₄, h₅, h₆⟩ => ⟨h₁, h₂, h₃, h₄, h₅, h₆⟩⟩

theorem noteComment_some {note : String} (h : note ≠ "") :
    noteComment (some note) = " /* scangen: " ++ note ++ " */" := by
  rw [noteComment, if_neg (by simpa using h)]
  rfl

theorem eq_of_noteComment_eq {note note' : Option String} (h : ∀ n ∈ note, n ≠ "")
    (h' : ∀ n ∈ note', n ≠ "") (heq : noteComment note = noteComment note') : note = note' := by
  cases note with
  | none =>
    cases note' with
    | none => rfl
    | some n =>
      rw [noteComment_some (h' n rfl)] at heq
      simp [noteComment] at heq
  | some n =>
    cases note' with
    | none =>
      rw [noteComment_some (h n rfl)] at heq
      simp [noteComment] at heq
    | some n' =>
      rw [noteComment_some (h n rfl), noteComment_some (h' n' rfl), String.append_left_inj,
        String.append_right_inj] at heq
      rw [heq]

/-- What the line of a rule has after the gap. -/
def Rule.actionText (r : Rule) : String :=
  Text.joinWith " " (r.actions.map Action.text) ++ noteComment r.note

def Rule.line (r : Rule) : String :=
  "<" ++ Text.joinWith "," r.states ++ ">" ++ r.pattern ++ gap ++ r.actionText

namespace Rule.Legible

variable {r r' : Rule}

theorem mapM_render (h : r.Legible) :
    r.actions.mapM Action.render = .ok (r.actions.map Action.text) := by
  rw [mapM_eq_ok_iff, List.forall₂_map_right_iff, List.forall₂_same]
  exact fun a ha => (h.actions a ha).readable.render

theorem render (h : r.Legible) : r.render = .ok r.line := by
  unfold Rule.render Rule.line Rule.actionText
  rw [h.mapM_render, ← String.append_assoc]
  rfl

/-! ### Reading a line -/

theorem actionText_start (h : r.Legible) : r.actionText.toList.head?.any (!isBlank ·) = true := by
  obtain ⟨a, as, hactions⟩ := List.exists_cons_of_ne_nil h.actions_ne_nil
  have hclean := (h.actions a (by rw [hactions]; exact List.mem_cons_self)).readable.clean
  obtain ⟨c, hc, hblank⟩ := Option.any_eq_true _ _ |>.mp hclean.start
  unfold Rule.actionText
  rw [hactions, List.map_cons, joinWith_cons, String.append_assoc, String.toList_append,
    Action.text, String.toList_ofList, List.append_assoc, List.head?_append, hc]
  exact hblank

/-- The pattern ends where the gap starts. -/
theorem cutPattern?_line {dialect : Dialect} (hpattern : Sheltered dialect r.pattern) :
    cutPattern? dialect 0 (r.pattern ++ gap ++ r.actionText).toList =
      some (r.pattern.toList, (gap ++ r.actionText).toList) := by
  rw [String.append_assoc, String.toList_append]
  have hgap : (gap ++ r.actionText).toList = ' ' :: ("   \t" ++ r.actionText).toList := by
    simp [gap]
  rw [hgap]
  exact hpattern _

theorem dropWhile_gap (h : r.Legible) :
    (gap ++ r.actionText).toList.dropWhile isBlank = r.actionText.toList := by
  have hgap : ∀ c ∈ gap.toList, isBlank c = true := by simp [gap, isBlank]
  rw [String.toList_append, List.dropWhile_append_of_pos hgap]
  obtain ⟨c, hc, hblank⟩ := Option.any_eq_true _ _ |>.mp h.actionText_start
  obtain ⟨rest, hrest⟩ := List.head?_eq_some_iff.mp hc
  rw [hrest, List.dropWhile_cons_of_neg (by simpa using hblank)]

theorem splitOn_states (h : r.Legible) :
    ((Text.joinWith "," r.states).toList.splitOn ',').map String.ofList = r.states := by
  rw [toList_joinWith]
  have hsplit : (",".toList.intercalate (r.states.map String.toList)).splitOn ',' =
      r.states.map String.toList := by
    refine List.splitOn_intercalate ',' ?_ (by simpa using h.states_ne_nil)
    intro text htext
    obtain ⟨state, hstate, rfl⟩ := List.mem_map.mp htext
    exact not_mem_of_isWord (h.states state hstate) (by decide)
  rw [hsplit, List.map_map]
  exact List.map_id'' (fun _ => String.ofList_toList) _

theorem readLine?_line (h : r.Legible) {dialect : Dialect}
    (hpattern : Sheltered dialect r.pattern) :
    readLine? dialect r.line.toList = some ⟨r.states, r.pattern, r.actionText⟩ := by
  have hline : r.line.toList = '<' :: ((Text.joinWith "," r.states).toList ++
      '>' :: (r.pattern ++ gap ++ r.actionText).toList) := by
    simp [Rule.line]
  have hclosing : '>' ∉ (Text.joinWith "," r.states).toList :=
    not_mem_joinWith (by decide) fun state hstate =>
      not_mem_of_isWord (h.states state hstate) (by decide)
  have hstates : ∀ c ∈ (Text.joinWith "," r.states).toList, decide (c ≠ '>') = true := by
    intro c hc
    exact decide_eq_true fun heq => hclosing (heq ▸ hc)
  rw [hline, readLine?, List.dropWhile_append_of_pos hstates,
    List.takeWhile_append_of_pos hstates]
  simp only [ne_eq, not_true_eq_false, decide_false, Bool.false_eq_true, not_false_eq_true,
    List.dropWhile_cons_of_neg, List.takeWhile_cons_of_neg, List.append_nil,
    cutPattern?_line hpattern, Option.map_some, h.dropWhile_gap, h.splitOn_states,
    String.ofList_toList]

theorem newline_not_mem_line (h : r.Legible) : '\n' ∉ r.line.toList := by
  have hstates : '\n' ∉ (Text.joinWith "," r.states).toList :=
    not_mem_joinWith (by decide) fun state hstate =>
      not_mem_of_isWord (h.states state hstate) (by decide)
  have hactions : '\n' ∉ (Text.joinWith " " (r.actions.map Action.text)).toList := by
    refine not_mem_joinWith (by decide) fun text htext => ?_
    obtain ⟨a, ha, rfl⟩ := List.mem_map.mp htext
    have hnewline := (h.actions a ha).readable.clean.newline
    simpa [Action.text] using hnewline
  have hnote : '\n' ∉ (noteComment r.note).toList := by
    cases hr : r.note with
    | none => exact List.not_mem_nil
    | some note =>
      obtain ⟨hne, hnewline⟩ := h.note note hr
      simp [noteComment_some hne, hnewline]
  simp [Rule.line, Rule.actionText, gap, hstates, hactions, hnote, h.pattern]

/-! ### Known by its line -/

/-- What follows the first action in the line of a rule. -/
def laterText (actions : List Action) (note : Option String) : List Char :=
  actions.flatMap (fun a => ' ' :: (a.statement ++ [';'])) ++ (noteComment note).toList

theorem toList_actionText {a : Action} {as : List Action} (hactions : r.actions = a :: as) :
    r.actionText.toList = a.statement ++ ';' :: laterText as r.note := by
  unfold Rule.actionText laterText
  rw [hactions, List.map_cons, joinWith_cons, List.map_map]
  simp [Action.text, List.flatMap_map, Function.comp_def]

/-- The text of an action ends at its first semicolon, so what comes after may be
anything. -/
theorem eq_of_statement_append {a b : Action} (ha : a.Legible) (hb : b.Legible)
    {rest rest' : List Char} (h : a.statement ++ ';' :: rest = b.statement ++ ';' :: rest') :
    a = b ∧ rest = rest' := by
  have ha' := ha.readable
  have hb' := hb.readable
  obtain ⟨hstatement, hrest⟩ := eq_of_append_stop ha'.clean.semicolon hb'.clean.semicolon h
  refine ⟨?_, hrest⟩
  have hof := ha'.ofStatement?
  rw [hstatement, hb'.ofStatement?] at hof
  exact (Option.some.inj hof).symm

/-- No action starts like a note. -/
theorem laterText_cons_ne {a : Action} (ha : a.Legible) (as : List Action)
    (note note' : Option String) (hnote : ∀ n ∈ note', n ≠ "") :
    laterText (a :: as) note ≠ laterText [] note' := by
  intro h
  have hclean := ha.readable.clean
  have hlater : laterText (a :: as) note = ' ' :: (a.statement ++ ';' :: laterText as note) := by
    simp [laterText]
  rw [hlater] at h
  cases note' with
  | none => cases h
  | some n =>
    have hcomment : laterText [] (some n) = ' ' :: ("/* sc".toList ++ ("angen: " ++ n ++ " */").toList) := by
      unfold laterText
      rw [noteComment_some (hnote n rfl)]
      simp
    rw [hcomment] at h
    have htake := congrArg (List.take 5) (List.cons.inj h).2
    rw [List.take_append_of_le_length hclean.length,
      List.take_append_of_le_length (by decide)] at htake
    exact hclean.note htake

theorem eq_of_laterText_eq {as bs : List Action} {note note' : Option String}
    (has : ∀ a ∈ as, a.Legible) (hbs : ∀ b ∈ bs, b.Legible) (hnote : ∀ n ∈ note, n ≠ "")
    (hnote' : ∀ n ∈ note', n ≠ "") (h : laterText as note = laterText bs note') :
    as = bs ∧ note = note' := by
  induction as generalizing bs with
  | nil =>
    cases bs with
    | nil => exact ⟨rfl, eq_of_noteComment_eq hnote hnote' (String.toList_inj.mp h)⟩
    | cons b bs =>
      exact absurd h.symm (laterText_cons_ne (hbs b List.mem_cons_self) bs note' note hnote)
  | cons a as ih =>
    cases bs with
    | nil => exact absurd h (laterText_cons_ne (has a List.mem_cons_self) as note note' hnote')
    | cons b bs =>
      have hcons (c : Action) (cs : List Action) (n : Option String) :
          laterText (c :: cs) n = ' ' :: (c.statement ++ ';' :: laterText cs n) := by
        simp [laterText]
      rw [hcons, hcons] at h
      obtain ⟨rfl, hlater⟩ := eq_of_statement_append (has a List.mem_cons_self)
        (hbs b List.mem_cons_self) (List.cons.inj h).2
      obtain ⟨rfl, hsame⟩ := ih (fun c hc => has c (List.mem_cons_of_mem _ hc))
        (fun c hc => hbs c (List.mem_cons_of_mem _ hc)) hlater
      exact ⟨rfl, hsame⟩

/-- A legible rule is known by its line. -/
theorem eq_of_line_eq (h : r.Legible) (h' : r'.Legible) (hpattern : Sheltered .plain r.pattern)
    (hpattern' : Sheltered .plain r'.pattern) (hline : r.line = r'.line) : r = r' := by
  have hread := h.readLine?_line hpattern
  rw [hline, h'.readLine?_line hpattern', Option.some.injEq, RuleLine.mk.injEq] at hread
  obtain ⟨hstates, hsame, haction⟩ := hread
  obtain ⟨a, as, hactions⟩ := List.exists_cons_of_ne_nil h.actions_ne_nil
  obtain ⟨b, bs, hactions'⟩ := List.exists_cons_of_ne_nil h'.actions_ne_nil
  have htext := congrArg String.toList haction
  rw [toList_actionText hactions, toList_actionText hactions'] at htext
  have hall : ∀ c ∈ a :: as, c.Legible := hactions ▸ h.actions
  have hall' : ∀ c ∈ b :: bs, c.Legible := hactions' ▸ h'.actions
  obtain ⟨hfirst, hlater⟩ := eq_of_statement_append (hall' b List.mem_cons_self)
    (hall a List.mem_cons_self) htext
  obtain ⟨hrest, hnote⟩ := eq_of_laterText_eq
    (fun c hc => hall' c (List.mem_cons_of_mem _ hc))
    (fun c hc => hall c (List.mem_cons_of_mem _ hc))
    (fun n hn => (h'.note n hn).1) (fun n hn => (h.note n hn).1) hlater
  cases r
  cases r'
  simp_all

end Rule.Legible

/-! ## The rules of a scanner -/

theorem note_of_delimiterNote {label : String} {delimiters : List String} {note : String}
    (hlabel : label ≠ "" ∧ '\n' ∉ label.toList)
    (h : note ∈ delimiterNote label delimiters) : note ≠ "" ∧ '\n' ∉ note.toList := by
  unfold delimiterNote at h
  split at h
  · cases h
  · cases h
    rw [String.join_cons]
    refine ⟨by simp [hlabel.1], ?_⟩
    rw [String.toList_append, String.toList_join, List.mem_append, List.mem_flatMap]
    rintro (hmem | ⟨piece, hpiece, hmem⟩)
    · exact hlabel.2 hmem
    · obtain ⟨delimiter, _, rfl⟩ := List.mem_map.mp hpiece
      have hquoted := newline_not_mem_cString delimiter
      simp [hquoted] at hmem

theorem legible_lineCommentRule (delimiter : String) : (lineCommentRule delimiter).Legible where
  states_ne_nil := List.cons_ne_nil _ _
  states := by
    show ∀ state ∈ [StartState.initial], isWord state = true
    decide
  pattern := by
    show '\n' ∉ (Text.cString delimiter ++ "[^\\n]*").toList
    rw [String.toList_append, List.mem_append, not_or]
    exact ⟨newline_not_mem_cString delimiter, by decide⟩
  actions_ne_nil := List.cons_ne_nil _ _
  actions := by
    show ∀ a ∈ [Action.skip "skip"], a.Legible
    decide
  note := fun _ => note_of_delimiterNote (by decide)

theorem legible_ofState {state pattern : String} {actions : List Action}
    (hstate : isWord state = true) (hpattern : '\n' ∉ pattern.toList) (hne : actions ≠ [])
    (hactions : ∀ a ∈ actions, a.Legible) : (Rule.ofState state pattern actions).Legible where
  states_ne_nil := List.cons_ne_nil _ _
  states := by
    intro s hs
    obtain rfl := List.mem_singleton.mp hs
    exact hstate
  pattern := hpattern
  actions_ne_nil := hne
  actions := hactions
  note := fun _ h => by cases h

theorem legible_blockCommentRules {form : BlockForm} {n : Nat} {r : Rule}
    (hr : r ∈ blockCommentRules form (commentState n)) : r.Legible := by
  have hstate := isWord_commentState n
  rcases mem_blockCommentRules.mp hr with rfl | rfl | rfl | rfl
  · exact
      { states_ne_nil := List.cons_ne_nil _ _
        states := by
          show ∀ state ∈ [StartState.initial], isWord state = true
          decide
        pattern := newline_not_mem_cString form.start
        actions_ne_nil := List.cons_ne_nil _ _
        actions := by
          intro a ha
          obtain rfl := List.mem_singleton.mp ha
          exact hstate
        note := fun _ => note_of_delimiterNote (by decide) }
  · exact legible_ofState hstate (newline_not_mem_cString _) (List.cons_ne_nil _ _) (by decide)
  · exact legible_ofState hstate (by decide) (List.cons_ne_nil _ _) (by decide)
  · exact legible_ofState hstate (by decide) (List.cons_ne_nil _ _) (by decide)

theorem isWord_of_mem_identifiers {keywords tokenNames : List String} {id : String}
    (h : id ∈ (SymbolTable.number keywords tokenNames).identifiers) : isWord id = true := by
  rw [SymbolTable.identifiers_number, List.mem_map] at h
  obtain ⟨n, _, rfl⟩ := h
  exact isWord_identifier n

section

variable {g : LexicalGrammar} {options : GeneratorOptions} {r : Rule}

/-- The line of every rule of a scanner can be read back. -/
theorem RuleOrigin.legible (horigin : RuleOrigin g options flexTranslator r) : r.Legible := by
  cases horigin with
  | @keyword text id hmem =>
    have hid : isWord id = true := isWord_of_mem_identifiers
      (SymbolTable.mem_identifiers.mpr ⟨_, SymbolTable.mem_keywords.mp hmem⟩)
    refine legible_ofState (by decide) (newline_not_mem_cString text) (List.cons_ne_nil _ _) ?_
    intro a ha
    obtain rfl := List.mem_singleton.mp ha
    exact hid
  | comment hr =>
    rcases mem_commentRules.mp hr with ⟨delimiter, _, rfl⟩ | ⟨form, n, _, hr⟩
    · exact legible_lineCommentRule delimiter
    · exact legible_blockCommentRules hr
  | @token pragma _ hpragma hr =>
    obtain ⟨pattern, htranslate, rfl⟩ := tokenRule_eq_ok_iff.mp hr
    obtain ⟨id, _, hmem, hid⟩ := exists_tokenIdentifier (mem_tokenNames hpragma)
    have hword : isWord id = true :=
      isWord_of_mem_identifiers (SymbolTable.mem_identifiers.mpr ⟨_, hmem⟩)
    have hpattern := flexTranslator_eq_ok_iff.mp htranslate
    rw [hid]
    refine legible_ofState (by decide) (newline_not_mem_pattern hpattern)
      (List.cons_ne_nil _ _) ?_
    intro a ha
    rcases List.mem_cons.mp ha with rfl | ha
    · decide
    · obtain rfl := List.mem_singleton.mp ha
      exact hword
  | literal hr => exact forall_mem_literalRules (by decide) (by decide) hr
  | category hmem _ =>
    have hrules : ∀ entry ∈ categoryTable, entry.rule.Legible := by decide
    exact hrules _ hmem
  | fallback hr =>
    have hrules : ∀ r ∈ fallbackRules, r.Legible := by decide
    exact hrules r hr

theorem renderRules_of_legible {rules : List Rule} (h : ∀ r ∈ rules, r.Legible) :
    renderRules rules = .ok (Text.joinLines (rules.map Rule.line)) := by
  have hlines : rules.mapM Rule.render = .ok (rules.map Rule.line) := by
    rw [mapM_eq_ok_iff, List.forall₂_map_right_iff, List.forall₂_same]
    exact fun r hr => (h r hr).render
  unfold renderRules
  rw [hlines]
  rfl

/-! ### Patterns -/

/-- The patterns that are the same in all scanners. -/
def fixedPatterns : List String :=
  ["\"\\\"\"", "\"'\"", "\\\\", "\\\"", ".", ".|\\n", "n", "t", "[^']", "[\\n]", "[^\\n]*",
    "[ \\t\\r\\n\\f]", Rule.endOfInput] ++ categoryTable.map CategoryRule.pattern

theorem sheltered_fixed {dialect : Dialect} {text : String} (h : text ∈ fixedPatterns) :
    Sheltered dialect text := by
  simp only [fixedPatterns, categoryTable, List.map_cons, List.map_nil, List.cons_append,
    List.nil_append, List.mem_cons, List.not_mem_nil, or_false] at h
  rcases h with rfl | rfl | rfl | rfl | rfl | rfl | rfl | rfl | rfl | rfl | rfl | rfl | rfl | rfl |
    rfl | rfl <;> exact fun _ => rfl

theorem sheltered_of_mem_commentRules {dialect : Dialect} {forms : CommentForms}
    (hr : r ∈ forms.rules) : Sheltered dialect r.pattern := by
  rcases mem_commentRules.mp hr with ⟨delimiter, _, rfl⟩ | ⟨form, n, _, hr⟩
  · exact (unbroken_cString delimiter).append_sheltered (sheltered_fixed (by decide))
  · rcases mem_blockCommentRules.mp hr with rfl | rfl | rfl | rfl
    · exact (unbroken_cString form.start).sheltered
    · exact (unbroken_cString form.stop).sheltered
    · exact @sheltered_fixed dialect "." (by decide)
    · exact @sheltered_fixed dialect "[\\n]" (by decide)

/-- The pattern of every rule of a scanner is read up to its end, unless it is that of a token
where the characters of a set end like a named class in the dialect. -/
theorem RuleOrigin.sheltered {dialect : Dialect} (hg : g.WellFormed)
    (horigin : RuleOrigin g options flexTranslator r)
    (hsets : ∀ pragma ∈ g.tokens, pragma.regex.pattern = .ok r.pattern →
      pragma.regex.AllSets fun chars => dialect.Closes chars.toList) :
    Sheltered dialect r.pattern := by
  cases horigin with
  | @keyword text id _ => exact (unbroken_cString text).sheltered
  | comment hr => exact sheltered_of_mem_commentRules hr
  | @token pragma _ hpragma hr =>
    obtain ⟨pattern, htranslate, rfl⟩ := tokenRule_eq_ok_iff.mp hr
    have hpattern := flexTranslator_eq_ok_iff.mp htranslate
    exact sheltered_pattern (hg.single_chars pragma hpragma) (hsets pragma hpragma hpattern)
      hpattern
  | literal hr =>
    exact sheltered_fixed (forall_mem_literalRules (P := fun r => r.pattern ∈ fixedPatterns)
      (by decide) (by decide) hr)
  | category hmem _ =>
    have hrules : ∀ entry ∈ categoryTable, entry.rule.pattern ∈ fixedPatterns := by decide
    exact sheltered_fixed (hrules _ hmem)
  | fallback hr =>
    have hrules : ∀ r ∈ fallbackRules, r.pattern ∈ fixedPatterns := by decide
    exact sheltered_fixed (hrules r hr)

end

end FlexSynth
