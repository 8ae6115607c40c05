import FlexSynth.Proofs.Flex.Spelling
import FlexSynth.Proofs.Scan.Progress

/-!
# Which rule is taken

The rule that a scanner takes is the first of those with the longest match
(`winner?_eq_some_iff_firstLongest`). So a rule can lose to one that stands before it
without being beaten in length, and that is how the order of the rules counts.

Two kinds of patterns make it easy to say who wins. A literal matches its text and
nothing else (`matchLength_of_literal`). And in a start state where all patterns match
single characters, the first rule that matches the next character is taken
(`winner?_of_isSingle`).

`Scans` is a run of which only the returned tokens are kept.
-/

namespace FlexSynth

open Flex

/-! ## Patterns for single characters -/

/-- Whether a pattern is made for single characters only. -/
def Flex.Pattern.isSingle : Pattern → Bool
  | .literal text => text.length = 1
  | .set _ => true
  | .alt left right => left.isSingle && right.isSingle
  | .seq _ _ | .star _ => false

theorem Flex.Pattern.length_eq_one_of_isSingle {p : Pattern} (h : p.isSingle = true)
    {word : List Char} (hword : word ∈ p.language) : word.length = 1 := by
  induction p with
  | literal text =>
    rw [mem_literal.mp hword]
    exact of_decide_eq_true h
  | set s =>
    obtain ⟨c, rfl, _⟩ := mem_set.mp hword
    rfl
  | alt left right ihl ihr =>
    rw [isSingle, Bool.and_eq_true] at h
    exact (mem_alt.mp hword).elim (ihl h.1) (ihr h.2)
  | seq _ _ => cases h
  | star _ => cases h

namespace Description

variable {d : Description} {state : String} {rest : List Char} {r w : Rule}

/-- Matches depend on the macros only. -/
theorem matchLength_congr {d d' : Description} (h : d'.macros = d.macros) :
    d'.matchLength = d.matchLength := by
  funext rest r
  unfold matchLength
  rw [h]

/-! ## The first of the longest -/

/-- The rule `w` is the first of the rules with the longest match, and its match is not
empty. -/
def FirstLongest (d : Description) (rest : List Char) (rules : List Rule) (w : Rule) : Prop :=
  ∃ before after, rules = before ++ w :: after ∧ 0 < d.matchLength rest w ∧
    (∀ r ∈ before, d.matchLength rest r < d.matchLength rest w) ∧
    ∀ r ∈ after, d.matchLength rest r ≤ d.matchLength rest w

namespace FirstLongest

variable {rules others : List Rule}

theorem mem (h : d.FirstLongest rest rules w) : w ∈ rules := by
  obtain ⟨before, after, rfl, _⟩ := h
  exact List.mem_append_right _ List.mem_cons_self

theorem pos (h : d.FirstLongest rest rules w) : 0 < d.matchLength rest w := by
  obtain ⟨_, _, _, hpos, _⟩ := h
  exact hpos

theorem le (h : d.FirstLongest rest rules w) (hr : r ∈ rules) :
    d.matchLength rest r ≤ d.matchLength rest w := by
  obtain ⟨before, after, rfl, _, hbefore, hafter⟩ := h
  rcases List.mem_append.mp hr with hr | hr
  · exact (hbefore r hr).le
  · rcases List.mem_cons.mp hr with rfl | hr
    · exact le_rfl
    · exact hafter r hr

/-- The rules in front win with a match that is not shorter, the others with a longer one. -/
theorem append_iff : d.FirstLongest rest (rules ++ others) w ↔
    (d.FirstLongest rest rules w ∧ ∀ r ∈ others, d.matchLength rest r ≤ d.matchLength rest w) ∨
      d.FirstLongest rest others w ∧ ∀ r ∈ rules, d.matchLength rest r < d.matchLength rest w := by
  constructor
  · rintro ⟨before, after, hsplit, hpos, hbefore, hafter⟩
    rcases List.append_eq_append_iff.mp hsplit with ⟨more, rfl, rfl⟩ | ⟨more, rfl, hmore⟩
    · obtain ⟨hrules, hmiddle⟩ := List.forall_mem_append.mp hbefore
      exact .inr ⟨⟨more, after, rfl, hpos, hmiddle, hafter⟩, hrules⟩
    · cases more with
      | nil =>
        rw [List.append_nil]
        exact .inr ⟨⟨[], after, hmore.symm, hpos, nofun, hafter⟩, hbefore⟩
      | cons first more =>
        cases hmore
        obtain ⟨hmiddle, hothers⟩ := List.forall_mem_append.mp hafter
        exact .inl ⟨⟨before, more, rfl, hpos, hbefore, hmiddle⟩, hothers⟩
  · rintro (⟨⟨before, after, rfl, hpos, hbefore, hafter⟩, hothers⟩ |
      ⟨⟨before, after, rfl, hpos, hbefore, hafter⟩, hrules⟩)
    · exact ⟨before, after ++ others, List.append_assoc .., hpos, hbefore,
        List.forall_mem_append.mpr ⟨hafter, hothers⟩⟩
    · exact ⟨rules ++ before, after, (List.append_assoc ..).symm, hpos,
        List.forall_mem_append.mpr ⟨hrules, hbefore⟩, hafter⟩

/-- A winner that is not among the first rules has a longer match than all of them. -/
theorem lt_of_not_mem (h : d.FirstLongest rest (rules ++ others) w) (hw : w ∉ rules)
    (hr : r ∈ rules) : d.matchLength rest r < d.matchLength rest w := by
  rcases append_iff.mp h with ⟨hfirst, _⟩ | ⟨_, hlonger⟩
  · exact absurd hfirst.mem hw
  · exact hlonger r hr

/-- Rules with no longer match make no difference behind the others. -/
theorem append (h : d.FirstLongest rest rules w)
    (hothers : ∀ r ∈ others, d.matchLength rest r ≤ d.matchLength rest w) :
    d.FirstLongest rest (rules ++ others) w :=
  append_iff.mpr (.inl ⟨h, hothers⟩)

end FirstLongest

theorem winner?_eq_some_iff_firstLongest :
    d.winner? state rest = some w ↔ d.FirstLongest rest (d.rulesIn state) w := by
  rw [winner?_eq_some_iff]
  constructor
  · rintro ⟨hmem, hpos, hle, hfirst⟩
    obtain ⟨before, after, hsplit, hnot⟩ := List.eq_append_cons_of_mem hmem
    rw [hsplit] at hle hfirst
    refine ⟨before, after, hsplit, hpos, ?_, ?_⟩
    · intro r hr
      by_contra hlonger
      -- A rule before the first `w` would be found before it.
      have hidx := hfirst r (List.mem_append_left _ hr) (Nat.le_of_not_lt hlonger)
      have hbefore := List.idxOf_lt_length_of_mem hr
      rw [List.idxOf_append_of_notMem hnot, List.idxOf_append_of_mem hr] at hidx
      omega
    · exact fun r hr => hle r (List.mem_append_right _ (List.mem_cons_of_mem _ hr))
  · intro h
    refine ⟨h.mem, h.pos, fun r hr => h.le hr, ?_⟩
    obtain ⟨before, after, hsplit, _, hbefore, _⟩ := h
    have hnot : ∀ r, d.matchLength rest w ≤ d.matchLength rest r → r ∉ before :=
      fun r hle hr => absurd (hbefore r hr) (Nat.not_lt.mpr hle)
    intro r _ hle
    rw [hsplit, List.idxOf_append_of_notMem (hnot w le_rfl), List.idxOf_append_of_notMem (hnot r hle),
      List.idxOf_cons_self, Nat.add_zero]
    exact Nat.le_add_right _ _

/-! ## Taking the winner -/

theorem matchLength_le_length : d.matchLength rest r ≤ rest.length := by
  unfold matchLength
  split
  · exact Nat.findGreatest_le _
  · exact Nat.zero_le _

/-- At the end of the input, no rule wins. -/
theorem rest_ne_nil_of_winner? (h : d.winner? state rest = some w) : rest ≠ [] := by
  have hpos := (winner?_eq_some_iff_firstLongest.mp h).pos
  exact List.ne_nil_of_length_pos (hpos.trans_le matchLength_le_length)

theorem step_of_winner? {c : Config} {text : List Char} {e : Effect}
    (hwinner : d.winner? c.state c.rest = some w)
    (htext : c.rest.take (d.matchLength c.rest w) = text)
    (hactions : runActions text c.state c.buffers none w.actions = .ok e) :
    d.step c = .moved ⟨w, text, e.emitted⟩ ⟨e.state, c.rest.drop text.length, e.buffers⟩ := by
  have hselect : d.select? c = some (w, d.matchLength c.rest w) := by
    unfold select?
    rw [if_neg (rest_ne_nil_of_winner? hwinner), hwinner]
    rfl
  have hlength : text.length = d.matchLength c.rest w := by
    rw [← htext, List.length_take, min_eq_left matchLength_le_length]
  rw [step_eq_moved_iff]
  exact ⟨w, _, e, hselect, htext.symm ▸ hactions, by rw [htext], by rw [hlength]⟩

/-- At the end of the input, the first rule for it is taken. -/
theorem step_of_endRule {b : Buffers} {e : Effect}
    (hfirst : (d.rulesIn state).find? Rule.isEndOfInput = some w)
    (hactions : runActions [] state b none w.actions = .ok e) :
    d.step ⟨state, [], b⟩ = .moved ⟨w, [], e.emitted⟩ ⟨e.state, [], e.buffers⟩ := by
  have hselect : d.select? ⟨state, [], b⟩ = some (w, 0) := by
    unfold select?
    rw [if_pos rfl, hfirst]
    rfl
  rw [step_eq_moved_iff]
  exact ⟨w, 0, e, hselect, hactions, rfl, rfl⟩

/-! ## Literals -/

/-- A literal matches its text, where the input starts with it. -/
theorem matchLength_of_literal {text : List Char} (hlanguage : d.language r = {text}) :
    d.matchLength rest r = if text <+: rest then text.length else 0 := by
  have hword {n : Nat} : rest.take n ∈ d.language r ↔ rest.take n = text := by
    rw [hlanguage]
    exact Iff.rfl
  split
  · next hstarts =>
    have htake : rest.take text.length = text := (List.prefix_iff_eq_take.mp hstarts).symm
    refine le_antisymm ?_ (le_matchLength hstarts.length_le (hword.mpr htake))
    by_contra hlonger
    have hpos : 0 < d.matchLength rest r := by omega
    have hlength := congrArg List.length (hword.mp (take_matchLength_mem hpos))
    rw [List.length_take, min_eq_left matchLength_le_length] at hlength
    omega
  · next hstarts =>
    by_contra hne
    have htake := hword.mp (take_matchLength_mem (Nat.pos_of_ne_zero hne))
    exact hstarts (htake ▸ List.take_prefix _ rest)

theorem matchLength_of_prefix {text : List Char} (hlanguage : d.language r = {text})
    (hstarts : text <+: rest) : d.matchLength rest r = text.length := by
  rw [matchLength_of_literal hlanguage, if_pos hstarts]

/-- What a literal has matched is its text. -/
theorem take_matchLength_of_literal {text : List Char} (hlanguage : d.language r = {text})
    (hpos : 0 < d.matchLength rest r) : rest.take (d.matchLength rest r) = text := by
  have hword := take_matchLength_mem hpos
  rw [hlanguage] at hword
  exact hword

/-- A literal that wins is what the input starts with. -/
theorem step_of_literal {c : Config} {text : List Char} {e : Effect}
    (hlanguage : d.language w = {text}) (hwinner : d.winner? c.state c.rest = some w)
    (hactions : runActions text c.state c.buffers none w.actions = .ok e) :
    ∃ rest, c.rest = text ++ rest ∧
      d.step c = .moved ⟨w, text, e.emitted⟩ ⟨e.state, rest, e.buffers⟩ := by
  have hpos := (winner?_eq_some_iff_firstLongest.mp hwinner).pos
  have htext := take_matchLength_of_literal hlanguage hpos
  obtain ⟨rest, hrest⟩ := htext ▸ List.take_prefix (d.matchLength c.rest w) c.rest
  have hstep := step_of_winner? hwinner htext hactions
  rw [← hrest, List.drop_left] at hstep
  exact ⟨rest, hrest.symm, hstep⟩

/-! ## Single characters -/

/-- Whether the rule matches a text of the one character. -/
def takes (d : Description) (c : Char) (r : Rule) : Bool :=
  (Flex.read d.macros r.pattern).any fun p => p.accepts [c]

theorem takes_eq_true_iff {c : Char} : d.takes c r = true ↔ [c] ∈ d.language r := by
  unfold takes language
  cases Flex.read d.macros r.pattern with
  | some p => exact Pattern.accepts_iff
  | none => exact iff_of_false Bool.false_ne_true (Language.notMem_zero _)

/-- Whether the rule matches single characters only. -/
def isSingle (d : Description) (r : Rule) : Bool :=
  (Flex.read d.macros r.pattern).all Pattern.isSingle

theorem length_eq_one_of_isSingle (h : d.isSingle r = true) {word : List Char}
    (hword : word ∈ d.language r) : word.length = 1 := by
  unfold isSingle at h
  unfold language at hword
  cases hread : Flex.read d.macros r.pattern with
  | some p =>
    rw [hread] at h hword
    exact Pattern.length_eq_one_of_isSingle h hword
  | none =>
    rw [hread] at hword
    exact hword.elim

theorem matchLength_le_one_of_isSingle (h : d.isSingle r = true) : d.matchLength rest r ≤ 1 := by
  by_contra hlonger
  have hpos : 0 < d.matchLength rest r := by omega
  have hlength := length_eq_one_of_isSingle h (take_matchLength_mem hpos)
  rw [List.length_take, min_eq_left matchLength_le_length] at hlength
  omega

theorem matchLength_of_isSingle {c : Char} (h : d.isSingle r = true) :
    d.matchLength (c :: rest) r = if d.takes c r = true then 1 else 0 := by
  have hle : d.matchLength (c :: rest) r ≤ 1 := matchLength_le_one_of_isSingle h
  split
  · next htakes => exact le_antisymm hle (matchLength_pos (takes_eq_true_iff.mp htakes))
  · next htakes =>
    by_contra hne
    have hpos := Nat.pos_of_ne_zero hne
    have hword := take_matchLength_mem hpos
    rw [le_antisymm hle hpos] at hword
    exact htakes (takes_eq_true_iff.mpr hword)

/-- Where all rules match single characters only, the first that matches the next
character wins. -/
theorem winner?_of_isSingle {c : Char} (hsingle : ∀ r ∈ d.rulesIn state, d.isSingle r = true)
    (hfirst : (d.rulesIn state).find? (d.takes c) = some w) :
    d.winner? state (c :: rest) = some w ∧ d.matchLength (c :: rest) w = 1 := by
  obtain ⟨htakes, before, after, hsplit, hbefore⟩ := List.find?_eq_some_iff_append.mp hfirst
  have hlength : d.matchLength (c :: rest) w = 1 := by
    rw [matchLength_of_isSingle (hsingle w (List.mem_of_find?_eq_some hfirst)), if_pos htakes]
  refine ⟨winner?_eq_some_iff_firstLongest.mpr ⟨before, after, hsplit, ?_, ?_, ?_⟩, hlength⟩
  · rw [hlength]
    exact Nat.one_pos
  · intro r hr
    have hr' := hsingle r (hsplit ▸ List.mem_append_left _ hr)
    rw [hlength, matchLength_of_isSingle hr', if_neg (by simpa using hbefore r hr)]
    exact Nat.one_pos
  · intro r hr
    have hr' := hsingle r (hsplit ▸ List.mem_append_right _ (List.mem_cons_of_mem _ hr))
    rw [hlength, matchLength_of_isSingle hr']
    split <;> omega

theorem step_of_isSingle {c : Char} {b : Buffers} {e : Effect}
    (hsingle : ∀ r ∈ d.rulesIn state, d.isSingle r = true)
    (hfirst : (d.rulesIn state).find? (d.takes c) = some w)
    (hactions : runActions [c] state b none w.actions = .ok e) :
    d.step ⟨state, c :: rest, b⟩ = .moved ⟨w, [c], e.emitted⟩ ⟨e.state, rest, e.buffers⟩ := by
  have hwinner : d.winner? state (c :: rest) = some w ∧ d.matchLength (c :: rest) w = 1 :=
    winner?_of_isSingle hsingle hfirst
  exact step_of_winner? hwinner.1 (by rw [hwinner.2]; rfl) hactions

end Description

/-! ## What a run returns -/

/-- The scanner gets from `c` to `c'` and returns the tokens on the way. -/
def Scans (d : Description) (c : Config) (tokens : List Emission) (c' : Config) : Prop :=
  ∃ fs, Run d c fs c' ∧ fs.filterMap Firing.emitted = tokens

namespace Scans

variable {d : Description} {c next last : Config} {tokens more : List Emission}

theorem refl (c : Config) : Scans d c [] c :=
  ⟨[], .refl c, rfl⟩

theorem of_step {f : Firing} (h : d.step c = .moved f next) :
    Scans d c f.emitted.toList next := by
  refine ⟨[f], .step h (.refl next), ?_⟩
  cases hf : f.emitted with
  | none => rw [List.filterMap_cons_none hf]; rfl
  | some e => rw [List.filterMap_cons_some hf]; rfl

theorem trans (hfirst : Scans d c tokens next) (hnext : Scans d next more last) :
    Scans d c (tokens ++ more) last := by
  obtain ⟨fs, hrun, rfl⟩ := hfirst
  obtain ⟨gs, hrun', rfl⟩ := hnext
  exact ⟨fs ++ gs, hrun.append hrun', List.filterMap_append⟩

end Scans

/-! ## The patterns of a scanner -/

section

variable {g : LexicalGrammar} {options : GeneratorOptions} {translate : Translator}
  {s : Synthesis} {r : Rule}

/-- A quoted text matches the text and nothing else. -/
theorem language_cString (hs : synthesize g options translate = .ok s) {text : String}
    (hpattern : r.pattern = Text.cString text) : s.description.language r = {text.toList} :=
  language_of_read hs (hpattern ▸ read_cString standardMacros text)

theorem isSingle_of_synthesize (hs : synthesize g options translate = .ok s) :
    s.description.isSingle r = (Flex.read standardMacros r.pattern).all Pattern.isSingle := by
  unfold Description.isSingle
  rw [macros_of_synthesize hs]

/-- The first of some rules that matches the character. -/
def firstRule? (rules : List Rule) (c : Char) : Option Rule :=
  rules.find? fun r => (Flex.read standardMacros r.pattern).any fun p => p.accepts [c]

theorem firstRule?_append {rules others : List Rule} {c : Char}
    (h : firstRule? rules c = some r) : firstRule? (rules ++ others) c = some r := by
  unfold firstRule? at *
  rw [List.find?_append, h, Option.some_or]

/-- Where a start state has rules for single characters only, the first rule that matches
the next character is taken. -/
theorem step_of_firstRule (hs : synthesize g options translate = .ok s) {state : String}
    {rules : List Rule} (hrules : s.description.rulesIn state = rules)
    (hsingle : ∀ r ∈ rules, (Flex.read standardMacros r.pattern).all Pattern.isSingle = true)
    {c : Char} {rest : List Char} {b : Buffers} (hfirst : firstRule? rules c = some r) {e : Effect}
    (hactions : runActions [c] state b none r.actions = .ok e) :
    s.description.step ⟨state, c :: rest, b⟩ =
      .moved ⟨r, [c], e.emitted⟩ ⟨e.state, rest, e.buffers⟩ := by
  refine Description.step_of_isSingle ?_ ?_ hactions
  · intro r hr
    rw [hrules] at hr
    rw [isSingle_of_synthesize hs]
    exact hsingle r hr
  · rw [hrules, ← hfirst]
    unfold firstRule? Description.takes
    rw [macros_of_synthesize hs]

end

end FlexSynth
