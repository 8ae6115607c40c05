import FlexSynth.Proofs.Scan.Rules

/-!
# Start states and the literal buffer

What stays true of a scan, whatever it reads (`Config.Sound`): it is in a start state
that its grammar has a use for, a literal buffer is live exactly when a string literal
is open, and every buffer that was made is either live or has been given up once.

No rule needs to be run for that. `track` follows the actions of a rule with nothing
but the start state and whether a buffer is live, and `runActions_of_track` says that
the actions do what it says. What `track` gives for the rules of a scanner is then
looked up rule by rule (`RuleOrigin.track_eq`), and every run inherits it (`sound_of_run`).
-/

namespace FlexSynth

/-! ## Start states -/

/-- The start states that a scan can be in. -/
def LexicalGrammar.activeStates (g : LexicalGrammar) : List String :=
  StartState.initial :: g.comments.states
    ++ ((if g.uses .string then [StartState.string, StartState.stringEscape] else [])
      ++ if g.uses .char then [StartState.char, StartState.charEscape, StartState.charEnd] else [])

/-- Whether a string literal is open. -/
def insideString (state : String) : Bool :=
  state = StartState.string || state = StartState.stringEscape

theorem mem_activeStates {g : LexicalGrammar} {state : String} : state ∈ g.activeStates ↔
    state = StartState.initial ∨ state ∈ g.comments.states ∨
    (g.uses .string = true ∧ state ∈ [StartState.string, StartState.stringEscape]) ∨
    (g.uses .char = true ∧
      state ∈ [StartState.char, StartState.charEscape, StartState.charEnd]) := by
  unfold LexicalGrammar.activeStates
  rw [List.mem_append, List.mem_append, List.mem_cons, or_assoc]
  cases g.uses .string <;> cases g.uses .char <;> simp

theorem insideString_eq_true_iff {state : String} :
    insideString state = true ↔ state = StartState.string ∨ state = StartState.stringEscape := by
  unfold insideString
  rw [Bool.or_eq_true, decide_eq_true_eq, decide_eq_true_eq]

theorem mem_literals_of_insideString {state : String} (h : insideString state = true) :
    state ∈ StartState.literals := by
  rcases insideString_eq_true_iff.mp h with rfl | rfl <;> decide

theorem insideString_of_mem_states {forms : CommentForms} {state : String}
    (h : state ∈ forms.states) : insideString state = false := by
  obtain ⟨_, n, _, rfl⟩ := mem_commentStates.mp h
  have hliterals := commentState_not_mem n
  by_contra hinside
  rw [Bool.not_eq_false, insideString_eq_true_iff] at hinside
  rcases hinside with h | h
  · exact hliterals (by rw [h]; decide)
  · exact hliterals (by rw [h]; decide)

/-! ## Buffers -/

namespace Buffers

/-- Every buffer that was made has been given up, once and in order, but for the live
one. -/
def Accounted (b : Buffers) : Prop :=
  b.released.map Prod.fst ++ b.live.toList.map Buffer.number = List.range b.made

variable {b : Buffers}

theorem create_of_not_live (hlive : b.live.isSome = false) (hb : b.Accounted) :
    ∃ b', b.create = .ok b' ∧ b'.live.isSome = true ∧ b'.Accounted := by
  rw [Option.isSome_eq_false_iff, Option.isNone_iff_eq_none] at hlive
  unfold Accounted at *
  unfold create
  rw [hlive] at hb ⊢
  refine ⟨_, rfl, rfl, ?_⟩
  rw [Option.toList_none, List.map_nil, List.append_nil] at hb
  show b.released.map Prod.fst ++ [b.made] = List.range (b.made + 1)
  rw [hb, List.range_succ]

theorem append_of_live (hlive : b.live.isSome = true) (hb : b.Accounted) (text : List Char) :
    ∃ b', b.append text = .ok b' ∧ b'.live.isSome = true ∧ b'.Accounted := by
  obtain ⟨buffer, hbuffer⟩ := Option.isSome_iff_exists.mp hlive
  unfold Accounted at *
  unfold append
  rw [hbuffer] at hb ⊢
  exact ⟨_, rfl, rfl, hb⟩

theorem release_of_live (hlive : b.live.isSome = true) (hb : b.Accounted) (how : Release) :
    ∃ content b', b.release how = .ok (content, b') ∧ b'.live.isSome = false ∧ b'.Accounted := by
  obtain ⟨buffer, hbuffer⟩ := Option.isSome_iff_exists.mp hlive
  unfold Accounted at *
  unfold release
  rw [hbuffer] at hb ⊢
  refine ⟨buffer.content, _, rfl, rfl, ?_⟩
  rw [← hb]
  simp

end Buffers

/-! ## Following actions -/

/-- Follows the start state and whether a buffer is live through some actions, up to
one that returns a token. Gives nothing when a buffer is misused. -/
def track : List Action → String → Bool → Option (String × Bool)
  | [], state, live => some (state, live)
  | .emit _ :: _, state, live => some (state, live)
  | .begin target :: rest, _, live => track rest target live
  | .skip _ :: rest, state, live => track rest state live
  | .createBuffer :: rest, state, live => if live then none else track rest state true
  | .appendChar _ :: rest, state, live => if live then track rest state true else none
  | .appendText :: rest, state, live => if live then track rest state true else none
  | .freeBuffer :: rest, state, live => if live then track rest state false else none
  | .assign _ .buffer :: rest, state, live => if live then track rest state false else none
  | .assign _ _ :: rest, state, live => track rest state live

/-- Actions do what following them says. -/
theorem runActions_of_track {actions : List Action} {state next : String} {live live' : Bool}
    (h : track actions state live = some (next, live')) {b : Buffers} (hlive : b.live.isSome = live)
    (hb : b.Accounted) (text : List Char) (value : Option Value) :
    ∃ e, runActions text state b value actions = .ok e ∧ e.state = next ∧
      e.buffers.live.isSome = live' ∧ e.buffers.Accounted := by
  -- What can fail works on the buffer, and `track` has asked the same question there.
  induction actions generalizing state live b value with
  | nil =>
    cases h
    exact ⟨_, rfl, rfl, hlive, hb⟩
  | cons action rest ih =>
    cases action with
    | emit token =>
      cases h
      exact ⟨_, rfl, rfl, hlive, hb⟩
    | begin target => exact ih h hlive hb value
    | skip reason => exact ih h hlive hb value
    | createBuffer =>
      rw [track] at h
      split at h
      · cases h
      · next hdead =>
        obtain ⟨b', hcreate, hlive', hb'⟩ :=
          Buffers.create_of_not_live (hlive.trans (Bool.eq_false_iff.mpr hdead)) hb
        rw [runActions, hcreate]
        exact ih h hlive' hb' value
    | appendChar char =>
      rw [track] at h
      split at h
      · next hopen =>
        cases char with
        | none =>
          obtain ⟨b', happend, hlive', hb'⟩ :=
            Buffers.append_of_live (hlive.trans hopen) hb (text.take 1)
          rw [runActions, happend]
          exact ih h hlive' hb' value
        | some fixed =>
          obtain ⟨b', happend, hlive', hb'⟩ :=
            Buffers.append_of_live (hlive.trans hopen) hb fixed.toList
          rw [runActions, happend]
          exact ih h hlive' hb' value
      · cases h
    | appendText =>
      rw [track] at h
      split at h
      · next hopen =>
        obtain ⟨b', happend, hlive', hb'⟩ := Buffers.append_of_live (hlive.trans hopen) hb text
        rw [runActions, happend]
        exact ih h hlive' hb' value
      · cases h
    | freeBuffer =>
      rw [track] at h
      split at h
      · next hopen =>
        obtain ⟨content, b', hrelease, hlive', hb'⟩ :=
          Buffers.release_of_live (hlive.trans hopen) hb .freed
        rw [runActions, hrelease]
        exact ih h hlive' hb' value
      · cases h
    | assign slot source =>
      cases source with
      | buffer =>
        rw [track] at h
        split at h
        · next hopen =>
          obtain ⟨content, b', hrelease, hlive', hb'⟩ :=
            Buffers.release_of_live (hlive.trans hopen) hb .harvested
          rw [runActions, Source.take, hrelease]
          exact ih h hlive' hb' _
        · cases h
      | _ => exact ih h hlive hb _

/-- From a state in which a rule is active, with a buffer exactly inside of a string
literal, the actions of the rule lead to a state of the grammar, with a buffer again
exactly inside of a string literal. -/
theorem RuleOrigin.track_eq {g : LexicalGrammar} {options : GeneratorOptions}
    {translate : Translator} {r : Rule} (horigin : RuleOrigin g options translate r)
    {state : String} (hstate : state ∈ r.states) :
    ∃ next ∈ g.activeStates,
      track r.actions state (insideString state) = some (next, insideString next) := by
  have hinitial : StartState.initial ∈ g.activeStates := mem_activeStates.mpr (.inl rfl)
  cases horigin with
  | keyword _ =>
    obtain rfl := List.mem_singleton.mp hstate
    exact ⟨StartState.initial, hinitial, rfl⟩
  | comment hr =>
    rcases mem_commentRules.mp hr with ⟨delimiter, _, rfl⟩ | ⟨form, n, hmem, hr⟩
    · obtain rfl := List.mem_singleton.mp hstate
      exact ⟨StartState.initial, hinitial, rfl⟩
    · have hcomment := mem_commentStates.mpr ⟨_, _, hmem, rfl⟩
      have hactive := mem_activeStates.mpr (.inr (.inl hcomment))
      have houtside := insideString_of_mem_states hcomment
      rcases mem_blockCommentRules.mp hr with rfl | rfl | rfl | rfl
      · obtain rfl := List.mem_singleton.mp hstate
        exact ⟨_, hactive, by rw [houtside]; rfl⟩
      · obtain rfl := List.mem_singleton.mp hstate
        exact ⟨StartState.initial, hinitial, by rw [houtside]; rfl⟩
      · obtain rfl := List.mem_singleton.mp hstate
        exact ⟨_, hactive, rfl⟩
      · obtain rfl := List.mem_singleton.mp hstate
        exact ⟨_, hactive, rfl⟩
  | token _ hr =>
    obtain ⟨pattern, _, rfl⟩ := tokenRule_eq_ok_iff.mp hr
    obtain rfl := List.mem_singleton.mp hstate
    exact ⟨StartState.initial, hinitial, rfl⟩
  | literal hr =>
    rcases mem_literalRules.mp hr with ⟨huses, hr⟩ | ⟨huses, hr⟩
    · have hrules : ∀ r ∈ stringLiteralRules BuiltinToken.string BuiltinToken.error,
          ∀ state ∈ r.states,
          ∃ next ∈ [StartState.initial, StartState.string, StartState.stringEscape],
            track r.actions state (insideString state) = some (next, insideString next) := by
        decide
      obtain ⟨next, hnext, htrack⟩ := hrules r hr state hstate
      refine ⟨next, mem_activeStates.mpr ?_, htrack⟩
      rcases List.mem_cons.mp hnext with rfl | hnext
      · exact .inl rfl
      · exact .inr (.inr (.inl ⟨huses, hnext⟩))
    · have hrules : ∀ errors : Bool, ∀ r ∈ charRules BuiltinToken.char
          (if errors then some BuiltinToken.error else none), ∀ state ∈ r.states,
          ∃ next ∈ [StartState.initial, StartState.char, StartState.charEscape, StartState.charEnd],
            track r.actions state (insideString state) = some (next, insideString next) := by
        decide
      obtain ⟨next, hnext, htrack⟩ := hrules _ r hr state hstate
      refine ⟨next, mem_activeStates.mpr ?_, htrack⟩
      rcases List.mem_cons.mp hnext with rfl | hnext
      · exact .inl rfl
      · exact .inr (.inr (.inr ⟨huses, hnext⟩))
  | category hmem _ =>
    have hrules : ∀ entry ∈ categoryTable,
        track entry.rule.actions StartState.initial (insideString StartState.initial) =
          some (StartState.initial, insideString StartState.initial) := by decide
    obtain rfl := List.mem_singleton.mp hstate
    exact ⟨StartState.initial, hinitial, hrules _ hmem⟩
  | fallback hr =>
    have hrules : ∀ r ∈ fallbackRules, ∀ state ∈ r.states,
        track r.actions state (insideString state) =
          some (StartState.initial, insideString StartState.initial) := by decide
    exact ⟨StartState.initial, hinitial, hrules r hr state hstate⟩

/-! ## The invariant -/

/-- What is true of a scan at any time. -/
structure Config.Sound (g : LexicalGrammar) (c : Config) : Prop where
  state_mem : c.state ∈ g.activeStates
  /-- A buffer is live exactly while a string literal is open. -/
  live_eq : c.buffers.live.isSome = insideString c.state
  accounted : c.buffers.Accounted

section

variable {g : LexicalGrammar} {options : GeneratorOptions} {translate : Translator}
  {s : Synthesis} {c : Config}

theorem sound_initial (input : List Char) : (Config.initial input).Sound g where
  state_mem := mem_activeStates.mpr (.inl rfl)
  live_eq := rfl
  accounted := rfl

/-- The actions of a rule that may be taken run to their end. -/
theorem exists_effect (hs : synthesize g options translate = .ok s) (hc : c.Sound g) {r : Rule}
    {length : Nat} (hselected : Selected s.description c r length) (text : List Char) :
    ∃ e, runActions text c.state c.buffers none r.actions = .ok e ∧
      ∀ rest, Config.Sound g ⟨e.state, rest, e.buffers⟩ := by
  have horigin := (mem_rules_iff hs).mp hselected.mem
  obtain ⟨next, hnext, htrack⟩ := horigin.track_eq (List.contains_iff_mem.mp hselected.active)
  obtain ⟨e, he, rfl, hlive, haccounted⟩ :=
    runActions_of_track htrack hc.live_eq hc.accounted text none
  exact ⟨e, he, fun rest => ⟨hnext, hlive, haccounted⟩⟩

theorem moved_of_select? (hs : synthesize g options translate = .ok s) (hc : c.Sound g) {r : Rule}
    {length : Nat} (hselect : s.description.select? c = some (r, length)) :
    ∃ e, runActions (c.rest.take length) c.state c.buffers none r.actions = .ok e ∧
      s.description.step c =
        .moved ⟨r, c.rest.take length, e.emitted⟩ ⟨e.state, c.rest.drop length, e.buffers⟩ ∧
      Config.Sound g ⟨e.state, c.rest.drop length, e.buffers⟩ := by
  obtain ⟨e, he, hsound⟩ := exists_effect hs hc (Description.selected_of_select? hselect) _
  exact ⟨e, he, Description.step_eq_moved_iff.mpr ⟨r, length, e, hselect, he, rfl, rfl⟩, hsound _⟩

theorem step_ne_misused (hs : synthesize g options translate = .ok s) (hc : c.Sound g)
    (fault : BufferFault) : s.description.step c ≠ .misused fault := by
  intro h
  obtain ⟨r, length, hselect, hfault⟩ := Description.step_eq_misused_iff.mp h
  obtain ⟨e, he, _⟩ := exists_effect hs hc (Description.selected_of_select? hselect) _
  rw [hfault] at he
  cases he

theorem sound_of_step (hs : synthesize g options translate = .ok s) (hc : c.Sound g) {f : Firing}
    {next : Config} (h : s.description.step c = .moved f next) : next.Sound g := by
  obtain ⟨r, length, e, hselect, he, _, rfl⟩ := Description.step_eq_moved_iff.mp h
  obtain ⟨e', he', hsound⟩ := exists_effect hs hc (Description.selected_of_select? hselect) _
  rw [he] at he'
  cases he'
  exact hsound _

theorem sound_of_run (hs : synthesize g options translate = .ok s) {input : List Char}
    {fs : List Firing} (h : Run s.description (.initial input) fs c) : c.Sound g :=
  h.invariant (fun hc hstep => sound_of_step hs hc hstep) (sound_initial input)

end

end FlexSynth
