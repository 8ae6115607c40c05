import FlexSynth.Proofs.Scan.States
import FlexSynth.Proofs.Scan.Winner

/-!
# The order of the built-in categories

The rules of the built-in categories may stand in any order among themselves: the scanner takes
the same steps, whatever the input and the rest of the grammar (`category_order_irrelevant`).

The order of two rules matters where both have the longest match. That cannot be with two of these
rules, since no text belongs to two categories (`wordCategory_of_mem`): an identifier starts with a
letter and a number with a digit, and of the numbers only those with a fraction have a point. So
each of them can win against the others by length alone (`Untied`). And rules that have the same
winners among themselves have the same winners between any other rules
(`Interchangeable.append`).
-/

namespace FlexSynth

open Flex

/-! ## Rules in another order -/

namespace Description

variable {d d' : Description} {rules others more more' : List Rule} {rest : List Char} {w : Rule}

/-- Where one of the rules has a match, no other of them matches as much. -/
def Untied (d : Description) (rules : List Rule) : Prop :=
  ∀ rest, ∀ r ∈ rules, ∀ r' ∈ rules, 0 < d.matchLength rest r →
    d.matchLength rest r = d.matchLength rest r' → r = r'

/-- Without ties, the order does not decide. -/
theorem Untied.firstLongest_iff (h : d.Untied rules) : d.FirstLongest rest rules w ↔
    w ∈ rules ∧ 0 < d.matchLength rest w ∧
      ∀ r ∈ rules, d.matchLength rest r ≤ d.matchLength rest w := by
  constructor
  · exact fun hfirst => ⟨hfirst.mem, hfirst.pos, fun r => hfirst.le⟩
  · rintro ⟨hw, hpos, hle⟩
    obtain ⟨before, after, rfl, hnot⟩ := List.eq_append_cons_of_mem hw
    obtain ⟨hbefore, hafter⟩ := List.forall_mem_append.mp hle
    refine ⟨before, after, rfl, hpos, fun r hr => ?_, (List.forall_mem_cons.mp hafter).2⟩
    refine lt_of_le_of_ne (hbefore r hr) fun hsame => hnot ?_
    rw [h rest w hw r (List.mem_append_left _ hr) hpos hsame.symm]
    exact hr

/-- The rules are the same ones, in an order in which the same ones are taken. -/
structure Interchangeable (d : Description) (rules others : List Rule) : Prop where
  mem_iff : ∀ r, r ∈ rules ↔ r ∈ others
  endRule : rules.find? Rule.isEndOfInput = others.find? Rule.isEndOfInput
  winner : ∀ rest w, d.FirstLongest rest rules w ↔ d.FirstLongest rest others w

namespace Interchangeable

theorem refl (d : Description) (rules : List Rule) : d.Interchangeable rules rules :=
  ⟨fun _ => Iff.rfl, rfl, fun _ _ => Iff.rfl⟩

/-- Who wins between other rules depends on who wins and on who is there. -/
theorem append (h : d.Interchangeable rules others) (hmore : d.Interchangeable more more') :
    d.Interchangeable (rules ++ more) (others ++ more') where
  mem_iff r := by rw [List.mem_append, List.mem_append, h.mem_iff, hmore.mem_iff]
  endRule := by rw [List.find?_append, List.find?_append, h.endRule, hmore.endRule]
  winner rest w := by
    simp only [FirstLongest.append_iff, h.winner, h.mem_iff, hmore.winner, hmore.mem_iff]

theorem of_perm (hrules : d.Untied rules) (hend : ∀ r ∈ rules, r.isEndOfInput = false)
    (hperm : others.Perm rules) : d.Interchangeable others rules where
  mem_iff _ := hperm.mem_iff
  endRule := by
    have hnone {l : List Rule} (hl : ∀ r ∈ l, r ∈ rules) : l.find? Rule.isEndOfInput = none := by
      rw [List.find?_eq_none]
      exact fun r hr => Bool.eq_false_iff.mp (hend r (hl r hr))
    rw [hnone fun r => hperm.mem_iff.mp, hnone fun r => id]
  winner rest w := by
    have hothers : d.Untied others := fun rest r hr r' hr' =>
      hrules rest r (hperm.mem_iff.mp hr) r' (hperm.mem_iff.mp hr')
    simp only [hrules.firstLongest_iff, hothers.firstLongest_iff, hperm.mem_iff]

end Interchangeable

theorem step_congr (hmacros : d'.macros = d.macros)
    (hrules : ∀ state, d.Interchangeable (d'.rulesIn state) (d.rulesIn state)) (c : Config) :
    d'.step c = d.step c := by
  have hlength := matchLength_congr hmacros
  have hwinner : d'.winner? c.state c.rest = d.winner? c.state c.rest := by
    refine Option.ext fun w => ?_
    rw [winner?_eq_some_iff_firstLongest, winner?_eq_some_iff_firstLongest,
      ← (hrules c.state).winner]
    unfold FirstLongest
    rw [hlength]
  have hselect : d'.select? c = d.select? c := by
    unfold select?
    rw [hwinner, (hrules c.state).endRule, hlength]
  unfold step
  rw [hselect]

end Description

/-- Scanners that take the same steps have the same runs. -/
theorem Run.of_step_eq {d d' : Description} (h : ∀ c, d'.step c = d.step c) {c last : Config}
    {fs : List Firing} (hrun : Run d c fs last) : Run d' c fs last := by
  induction hrun with
  | refl c => exact .refl c
  | step hstep _ ih => exact .step ((h _).trans hstep) ih

/-! ## The words of the categories -/

def digitSet : CharSet :=
  .members [('0', '9')]

def letterSet : CharSet :=
  .members [('a', 'z'), ('A', 'Z')]

/-- The patterns of the built-in categories, with their macros expanded. -/
def categoryPattern : Category → Pattern
  | .double =>
    .seq (.seq (.seq (.plus (.set digitSet)) (.literal ['.'])) (.plus (.set digitSet)))
      (.opt (.seq (.seq (.literal ['e']) (.opt (.literal ['-']))) (.plus (.set digitSet))))
  | .integer => .plus (.set digitSet)
  | .ident =>
    .seq (.set letterSet) (.star (.set
      (.members [('a', 'z'), ('A', 'Z'), ('0', '9'), ('\'', '\''), ('_', '_')])))
  | .string | .char => .nothing

theorem read_category : ∀ entry ∈ categoryTable,
    Flex.read standardMacros entry.pattern = some (categoryPattern entry.category) := by
  decide

/-- The only category that a text can belong to. -/
def wordCategory (word : List Char) : Category :=
  if word.head?.any letterSet.contains then .ident else if '.' ∈ word then .double else .integer

/-- No digit is a letter. -/
theorem not_letter_of_digit {c : Char} (h : digitSet.contains c = true) :
    letterSet.contains c = false := by
  simp only [digitSet, letterSet, CharSet.contains, inRanges, List.any_cons, List.any_nil,
    Bool.or_false, Bool.and_eq_true, decide_eq_true_eq, Bool.or_eq_false_iff,
    Bool.and_eq_false_iff, decide_eq_false_iff_not] at h ⊢
  have hbelow {d : Char} (hd : ¬d ≤ '9') : ¬d ≤ c := fun hle => hd (Char.le_trans hle h.2)
  exact ⟨.inl (hbelow (by decide)), .inl (hbelow (by decide))⟩

/-- Among numbers, a point makes the difference. -/
theorem wordCategory_of_digits {word : List Char} (hne : word ≠ [])
    (hword : ∀ c ∈ word, digitSet.contains c = true) (rest : List Char) :
    wordCategory (word ++ rest) = if '.' ∈ rest then .double else .integer := by
  have hpoint : '.' ∈ word ++ rest ↔ '.' ∈ rest := by
    rw [List.mem_append, or_iff_right]
    exact fun hmem => absurd (hword _ hmem) (by decide)
  have hfirst : (word ++ rest).head?.any letterSet.contains = false := by
    obtain ⟨c, word, rfl⟩ := List.exists_cons_of_ne_nil hne
    exact not_letter_of_digit (hword c List.mem_cons_self)
  simp only [wordCategory, hfirst, hpoint, Bool.false_eq_true, if_false]

/-- A text of a category is of no other category. -/
theorem wordCategory_of_mem {c : Category} {word : List Char}
    (h : word ∈ (categoryPattern c).language) : wordCategory word = c := by
  cases c with
  | string => exact absurd h Pattern.not_mem_nothing
  | char => exact absurd h Pattern.not_mem_nothing
  | double =>
    simp only [categoryPattern, Pattern.mem_seq, Pattern.mem_literal] at h
    obtain ⟨_, ⟨_, ⟨whole, hwhole, _, rfl, rfl⟩, fraction, _, rfl⟩, exponent, _, rfl⟩ := h
    obtain ⟨hne, hdigits⟩ := Pattern.mem_plus_set.mp hwhole
    rw [List.append_assoc, List.append_assoc, wordCategory_of_digits hne hdigits, if_pos]
    exact List.mem_cons_self
  | integer =>
    obtain ⟨hne, hdigits⟩ := Pattern.mem_plus_set.mp h
    have hcategory := wordCategory_of_digits hne hdigits []
    rwa [List.append_nil] at hcategory
  | ident =>
    obtain ⟨_, ⟨first, rfl, hfirst⟩, rest, _, rfl⟩ := h
    exact if_pos hfirst

/-! ## The rules of the categories -/

section

variable {g : LexicalGrammar} {options : GeneratorOptions} {translate : Translator} {s : Synthesis}

/-- One of the rules of the built-in categories at most has the longest match. -/
theorem untied_categoryRules (hs : synthesize g options translate = .ok s) :
    s.description.Untied (categoryRules g) := by
  have hunique : ∀ entry ∈ categoryTable, ∀ entry' ∈ categoryTable,
      entry.category = entry'.category → entry = entry' := by decide
  have hcategory {entry : CategoryRule} (hentry : entry ∈ categoryTable) {rest : List Char}
      (hpos : 0 < s.description.matchLength rest entry.rule) :
      wordCategory (rest.take (s.description.matchLength rest entry.rule)) = entry.category := by
    have hword := Description.take_matchLength_mem hpos
    rw [language_of_read (r := entry.rule) hs (read_category entry hentry)] at hword
    exact wordCategory_of_mem hword
  intro rest r hr r' hr' hpos hsame
  obtain ⟨entry, hentry, _, rfl⟩ := mem_categoryRules.mp hr
  obtain ⟨entry', hentry', _, rfl⟩ := mem_categoryRules.mp hr'
  have hsameCategory : entry.category = entry'.category := by
    rw [← hcategory hentry hpos, ← hcategory hentry' (hsame ▸ hpos), hsame]
  rw [hunique entry hentry entry' hentry' hsameCategory]

theorem isEndOfInput_of_category {r : Rule} (hr : r ∈ categoryRules g) :
    r.isEndOfInput = false := by
  have htable : ∀ entry ∈ categoryTable, entry.rule.isEndOfInput = false := by decide
  obtain ⟨entry, hentry, _, rfl⟩ := mem_categoryRules.mp hr
  exact htable entry hentry

/-- The scanner with the rules of its built-in categories in another order. -/
def reordered (g : LexicalGrammar) (options : GeneratorOptions) (s : Synthesis)
    (categories : List Rule) : Description :=
  describe g options { s.groups with categories }

theorem reordered_self (hs : synthesize g options translate = .ok s) :
    reordered g options s (categoryRules g) = s.description := by
  obtain ⟨tokens, _, hgroups, hdescription, _⟩ := synthesize_eq_ok_iff.mp hs
  rw [hdescription]
  unfold reordered
  rw [hgroups]

theorem interchangeable_reordered (hs : synthesize g options translate = .ok s)
    {categories : List Rule} (hperm : categories.Perm (categoryRules g)) (state : String) :
    s.description.Interchangeable ((reordered g options s categories).rulesIn state)
      (s.description.rulesIn state) := by
  have hsplit (categories : List Rule) : (reordered g options s categories).rulesIn state =
      (s.groups.keywords ++ s.groups.comments ++ s.groups.tokens ++ s.groups.literals).filter
        (Rule.activeIn state) ++ categories.filter (Rule.activeIn state) ++
      fallbackRules.filter (Rule.activeIn state) := by
    rw [← List.filter_append, ← List.filter_append]
    rfl
  have huntied : s.description.Untied ((categoryRules g).filter (Rule.activeIn state)) :=
    fun rest r hr r' hr' => untied_categoryRules hs rest r (List.mem_filter.mp hr).1 r'
      (List.mem_filter.mp hr').1
  have hblock := Description.Interchangeable.of_perm huntied
    (fun r hr => isEndOfInput_of_category (List.mem_filter.mp hr).1) (hperm.filter _)
  have hrules := hsplit (categoryRules g)
  rw [reordered_self hs] at hrules
  rw [hrules, hsplit]
  exact ((Description.Interchangeable.refl _ _).append hblock).append (.refl _ _)

end

/-- A scanner with the rules of its built-in categories in another order takes the same steps. So
on every input it takes the same rules for the same texts and returns the same tokens. -/
theorem category_order_irrelevant {g : LexicalGrammar} {options : GeneratorOptions}
    {translate : Translator} {s : Synthesis} (hs : synthesize g options translate = .ok s)
    {categories : List Rule} (hperm : categories.Perm (categoryRules g)) :
    reordered g options s (categoryRules g) = s.description ∧
    (∀ c, (reordered g options s categories).step c = s.description.step c) ∧
    ∀ input fs last, Run (reordered g options s categories) (.initial input) fs last ↔
      Run s.description (.initial input) fs last := by
  have hmacros : (reordered g options s categories).macros = s.description.macros :=
    (macros_of_synthesize hs).symm
  have hstep (c : Config) : (reordered g options s categories).step c = s.description.step c :=
    Description.step_congr hmacros (interchangeable_reordered hs hperm) c
  refine ⟨reordered_self hs, hstep, fun input fs last => ⟨fun hrun => ?_, fun hrun => ?_⟩⟩
  · exact hrun.of_step_eq fun c => (hstep c).symm
  · exact hrun.of_step_eq hstep

/-- With all categories, and identifiers in front. -/
theorem category_order_irrelevant_reversed : ∃ s,
    synthesize exampleGrammar { name := "example" } flexTranslator = .ok s ∧
      (categoryRules exampleGrammar).reverse ≠ categoryRules exampleGrammar ∧
      ∀ input fs last,
        Run (reordered exampleGrammar { name := "example" } s
          (categoryRules exampleGrammar).reverse) (.initial input) fs last ↔
        Run s.description (.initial input) fs last := by
  have hs : ∃ s, synthesize exampleGrammar { name := "example" } flexTranslator = .ok s := ⟨_, rfl⟩
  obtain ⟨s, hs⟩ := hs
  exact ⟨s, hs, by decide, (category_order_irrelevant hs (List.reverse_perm _)).2.2⟩

end FlexSynth
