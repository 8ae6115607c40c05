import FlexSynth.Proofs.Flex.Reading
import FlexSynth.Scanner.Description
import Mathlib.Data.List.MinMax
import Mathlib.Order.Nat

/-!
# Scanning

How a generated scanner works on an input. It is in a start state and takes, of the
rules that are active there, the one with the longest match that is not empty, and the
first of them when several match as much. At the end of the input it takes the rule
that is active for the end, if there is one. Then it runs the actions of the rule up to
the one that returns a token.

The literal buffers are followed one by one, by their numbers. Making a buffer while
one is live, and using one when none is live, are faults (`BufferFault`); a scan that
commits one goes no further.

`Description.step` is one step, and `Run` a row of steps with what has been done in
each. What a step can be is said once, in `step_eq_moved_iff` and `Selected`; proofs
about scans start from there.
-/

namespace FlexSynth

/-! ## Matches -/

namespace Description

/-- The words that the pattern of a rule matches. -/
def language (d : Description) (r : Rule) : Language Char :=
  match Flex.read d.macros r.pattern with
  | some p => p.language
  | none => 0

/-- The length of the longest match of a rule, zero when nothing or only the empty
word matches. -/
def matchLength (d : Description) (rest : List Char) (r : Rule) : Nat :=
  match Flex.read d.macros r.pattern with
  | some p => Nat.findGreatest (fun n => p.accepts (rest.take n) = true) rest.length
  | none => 0

/-- The rule that wins: the first of those with the longest match. -/
def winner? (d : Description) (state : String) (rest : List Char) : Option Rule :=
  ((d.rulesIn state).argmax (d.matchLength rest)).filter fun r => 0 < d.matchLength rest r

end Description

/-! ## Literal buffers -/

structure Buffer where
  number : Nat
  content : List Char
  deriving DecidableEq, Repr

/-- How a buffer is given up. -/
inductive Release where
  /-- Its content became the value of a token. -/
  | harvested
  | freed
  deriving DecidableEq, Repr

/-- The buffers that a scanner has made so far. -/
structure Buffers where
  live : Option Buffer := none
  made : Nat := 0
  released : List (Nat × Release) := []
  deriving DecidableEq, Repr

/-- A wrong use of the literal buffer. -/
inductive BufferFault where
  /-- A buffer is made while one is live. -/
  | secondBuffer
  /-- A buffer is used when none is live. -/
  | noBuffer
  deriving DecidableEq, Repr

namespace Buffers

def create (b : Buffers) : Except BufferFault Buffers :=
  match b.live with
  | some _ => .error .secondBuffer
  | none => .ok { b with live := some ⟨b.made, []⟩, made := b.made + 1 }

def append (b : Buffers) (text : List Char) : Except BufferFault Buffers :=
  match b.live with
  | some buffer => .ok { b with live := some ⟨buffer.number, buffer.content ++ text⟩ }
  | none => .error .noBuffer

def release (b : Buffers) (how : Release) : Except BufferFault (List Char × Buffers) :=
  match b.live with
  | some buffer =>
    .ok (buffer.content, { b with live := none, released := b.released ++ [(buffer.number, how)] })
  | none => .error .noBuffer

end Buffers

/-! ## Actions -/

/-- What a slot is filled with. A number is known by the text that is converted. -/
inductive Payload where
  | text (chars : List Char)
  | integer (lexeme : List Char)
  | double (lexeme : List Char)
  deriving DecidableEq, Repr

structure Value where
  slot : Slot
  content : Payload
  deriving DecidableEq, Repr

/-- A token that has been returned, with its value and the text that was matched. -/
structure Emission where
  token : String
  value : Option Value
  text : List Char
  deriving DecidableEq, Repr

/-- What a source gives for a match, and the buffers after that. -/
def Source.take (text : List Char) (b : Buffers) : Source → Except BufferFault (Payload × Buffers)
  | .text => .ok (.text text, b)
  | .firstChar => .ok (.text (text.take 1), b)
  | .constant char => .ok (.text (char.getD "").toList, b)
  | .integer => .ok (.integer text, b)
  | .double => .ok (.double text, b)
  | .buffer => do
    let (content, b) ← b.release .harvested
    return (.text content, b)

/-- Where the actions of a rule have led. -/
structure Effect where
  state : String
  buffers : Buffers
  emitted : Option Emission
  deriving DecidableEq, Repr

/-- Runs the actions of a rule on a match. Returning a token ends them. -/
def runActions (text : List Char) (state : String) (b : Buffers) (value : Option Value) :
    List Action → Except BufferFault Effect
  | [] => .ok ⟨state, b, none⟩
  | .emit token :: _ => .ok ⟨state, b, some ⟨token, value, text⟩⟩
  | .begin target :: rest => runActions text target b value rest
  | .skip _ :: rest => runActions text state b value rest
  | .createBuffer :: rest => do
    let b ← b.create
    runActions text state b value rest
  | .appendChar char :: rest => do
    let b ← b.append (match char with
      | some fixed => fixed.toList
      | none => text.take 1)
    runActions text state b value rest
  | .appendText :: rest => do
    let b ← b.append text
    runActions text state b value rest
  | .freeBuffer :: rest => do
    let (_, b) ← b.release .freed
    runActions text state b value rest
  | .assign slot source :: rest => do
    let (content, b) ← source.take text b
    runActions text state b (some ⟨slot, content⟩) rest

/-! ## Steps -/

/-- A scanner at work: its start state, the input that is left and its buffers. -/
structure Config where
  state : String
  rest : List Char
  buffers : Buffers
  deriving DecidableEq, Repr

def Config.initial (input : List Char) : Config :=
  ⟨StartState.initial, input, {}⟩

/-- A rule that has been taken, the text that it matched and the token that it
returned. -/
structure Firing where
  rule : Rule
  text : List Char
  emitted : Option Emission
  deriving DecidableEq, Repr

/-- What becomes of a scanner in a step. -/
inductive Outcome where
  | moved (f : Firing) (next : Config)
  /-- The input has ended and no rule is active for its end. -/
  | ended
  /-- There is input left and no active rule matches its beginning. -/
  | stuck
  | misused (fault : BufferFault)
  deriving DecidableEq, Repr

namespace Description

/-- The rule that a scanner takes, and the length of its match. -/
def select? (d : Description) (c : Config) : Option (Rule × Nat) :=
  if c.rest = [] then ((d.rulesIn c.state).find? Rule.isEndOfInput).map (·, 0)
  else (d.winner? c.state c.rest).map fun r => (r, d.matchLength c.rest r)

def fire (c : Config) (r : Rule) (length : Nat) : Outcome :=
  match runActions (c.rest.take length) c.state c.buffers none r.actions with
  | .ok e => .moved ⟨r, c.rest.take length, e.emitted⟩ ⟨e.state, c.rest.drop length, e.buffers⟩
  | .error fault => .misused fault

def step (d : Description) (c : Config) : Outcome :=
  match d.select? c with
  | some (r, length) => fire c r length
  | none => if c.rest = [] then .ended else .stuck

end Description

/-- `Run d c fs c'`: the scanner gets from `c` to `c'` with the firings `fs`. -/
inductive Run (d : Description) : Config → List Firing → Config → Prop
  | refl (c : Config) : Run d c [] c
  | step {c next last : Config} {f : Firing} {fs : List Firing} :
      d.step c = .moved f next → Run d next fs last → Run d c (f :: fs) last

/-! ## What a match is -/

namespace Description

variable {d : Description} {r : Rule} {rest : List Char}

/-- What is matched is a word of the pattern. -/
theorem take_matchLength_mem (h : 0 < d.matchLength rest r) :
    rest.take (d.matchLength rest r) ∈ d.language r := by
  unfold matchLength language at *
  split at h
  · next p hp =>
    -- The greatest number found is not zero, so it has been found to match.
    exact Flex.Pattern.accepts_iff.mp (Nat.findGreatest_of_ne_zero rfl h.ne')
  · exact absurd h (Nat.lt_irrefl 0)

/-- Nothing longer is a word of the pattern. -/
theorem le_matchLength {n : Nat} (hn : n ≤ rest.length) (h : rest.take n ∈ d.language r) :
    n ≤ d.matchLength rest r := by
  unfold matchLength language at *
  split at h
  · next p hp => exact Nat.le_findGreatest hn (Flex.Pattern.accepts_iff.mpr h)
  · exact h.elim

/-- A rule that matches the next character has a match. -/
theorem matchLength_pos {c : Char} (h : [c] ∈ d.language r) :
    0 < d.matchLength (c :: rest) r :=
  le_matchLength (n := 1) (by simp) h

theorem winner?_eq_some_iff {state : String} :
    d.winner? state rest = some r ↔
      r ∈ d.rulesIn state ∧ 0 < d.matchLength rest r ∧
      (∀ s ∈ d.rulesIn state, d.matchLength rest s ≤ d.matchLength rest r) ∧
      ∀ s ∈ d.rulesIn state, d.matchLength rest r ≤ d.matchLength rest s →
        (d.rulesIn state).idxOf r ≤ (d.rulesIn state).idxOf s := by
  unfold winner?
  rw [Option.filter_eq_some_iff, List.argmax_eq_some_iff, decide_eq_true_eq]
  tauto

theorem winner?_isSome_of_pos {state : String} (hmem : r ∈ d.rulesIn state)
    (h : 0 < d.matchLength rest r) : ∃ s, d.winner? state rest = some s := by
  cases hbest : (d.rulesIn state).argmax (d.matchLength rest) with
  | none =>
    rw [List.argmax_eq_none] at hbest
    rw [hbest] at hmem
    cases hmem
  | some s =>
    refine ⟨s, ?_⟩
    unfold winner?
    rw [hbest, Option.filter_some, if_pos]
    exact decide_eq_true (h.trans_le (List.le_of_mem_argmax hmem hbest))

theorem mem_rulesIn {state : String} :
    r ∈ d.rulesIn state ↔ r ∈ d.rules ∧ r.activeIn state = true :=
  List.mem_filter

/-- The pattern for the end of the input matches no text. -/
theorem matchLength_of_isEndOfInput (h : r.isEndOfInput = true) : d.matchLength rest r = 0 := by
  have hpattern : r.pattern = Rule.endOfInput := beq_iff_eq.mp h
  have hread : Flex.read d.macros Rule.endOfInput = none := rfl
  unfold matchLength
  rw [hpattern, hread]

end Description

/-! ## What a step is -/

/-- The rule `r` may be taken at `c`, and matches `length` characters. -/
structure Selected (d : Description) (c : Config) (r : Rule) (length : Nat) : Prop where
  mem : r ∈ d.rules
  active : r.activeIn c.state = true
  /-- Rules for the end of the input are taken there, and only there. -/
  atEnd : r.isEndOfInput = true ↔ c.rest = []
  pos : c.rest ≠ [] → 0 < length
  word : c.rest ≠ [] → c.rest.take length ∈ d.language r

namespace Description

variable {d : Description} {c : Config}

theorem selected_of_select? {r : Rule} {length : Nat} (h : d.select? c = some (r, length)) :
    Selected d c r length := by
  unfold select? at h
  split at h
  · next hrest =>
    obtain ⟨s, hs, heq⟩ := Option.map_eq_some_iff.mp h
    cases heq
    obtain ⟨hmem, hactive⟩ := mem_rulesIn.mp (List.mem_of_find?_eq_some hs)
    exact ⟨hmem, hactive, iff_of_true (List.find?_some hs) hrest, fun hne => absurd hrest hne,
      fun hne => absurd hrest hne⟩
  · next hrest =>
    obtain ⟨s, hs, heq⟩ := Option.map_eq_some_iff.mp h
    cases heq
    obtain ⟨hin, hpos, _, _⟩ := winner?_eq_some_iff.mp hs
    obtain ⟨hmem, hactive⟩ := mem_rulesIn.mp hin
    refine ⟨hmem, hactive, iff_of_false ?_ hrest, fun _ => hpos, fun _ => take_matchLength_mem hpos⟩
    intro hend
    rw [matchLength_of_isEndOfInput hend] at hpos
    exact Nat.lt_irrefl 0 hpos

theorem step_of_some {r : Rule} {length : Nat} (h : d.select? c = some (r, length)) :
    d.step c = fire c r length := by
  unfold step
  rw [h]

theorem step_of_none (h : d.select? c = none) :
    d.step c = if c.rest = [] then .ended else .stuck := by
  unfold step
  rw [h]

/-- All that a step can be. Where a rule is selected, its actions decide; where none is, the
input that is left. -/
theorem step_cases (d : Description) (c : Config) :
    (∃ r length e, d.select? c = some (r, length) ∧
      runActions (c.rest.take length) c.state c.buffers none r.actions = .ok e ∧
      d.step c = .moved ⟨r, c.rest.take length, e.emitted⟩
        ⟨e.state, c.rest.drop length, e.buffers⟩) ∨
    (∃ r length fault, d.select? c = some (r, length) ∧
      runActions (c.rest.take length) c.state c.buffers none r.actions = .error fault ∧
      d.step c = .misused fault) ∨
    (d.select? c = none ∧ c.rest = [] ∧ d.step c = .ended) ∨
    (d.select? c = none ∧ c.rest ≠ [] ∧ d.step c = .stuck) := by
  cases hselect : d.select? c with
  | none =>
    rw [step_of_none hselect]
    by_cases hrest : c.rest = []
    · exact .inr (.inr (.inl ⟨rfl, hrest, if_pos hrest⟩))
    · exact .inr (.inr (.inr ⟨rfl, hrest, if_neg hrest⟩))
  | some choice =>
    obtain ⟨r, length⟩ := choice
    rw [step_of_some hselect, fire]
    cases hrun : runActions (c.rest.take length) c.state c.buffers none r.actions with
    | ok e => exact .inl ⟨r, length, e, rfl, hrun, rfl⟩
    | error fault => exact .inr (.inl ⟨r, length, fault, rfl, hrun, rfl⟩)

/-- A step takes a rule that is selected and runs its actions. -/
theorem step_eq_moved_iff {f : Firing} {next : Config} :
    d.step c = .moved f next ↔
      ∃ r length e, d.select? c = some (r, length) ∧
        runActions (c.rest.take length) c.state c.buffers none r.actions = .ok e ∧
        f = ⟨r, c.rest.take length, e.emitted⟩ ∧
        next = ⟨e.state, c.rest.drop length, e.buffers⟩ := by
  constructor
  · intro h
    obtain ⟨r, length, e, hselect, he, hstep⟩ | ⟨_, _, _, _, _, hstep⟩ | ⟨_, _, hstep⟩ |
      ⟨_, _, hstep⟩ := step_cases d c <;> rw [hstep] at h <;> cases h
    exact ⟨r, length, e, hselect, he, rfl, rfl⟩
  · rintro ⟨r, length, e, hselect, he, rfl, rfl⟩
    rw [step_of_some hselect, fire, he]

theorem step_eq_misused_iff {fault : BufferFault} :
    d.step c = .misused fault ↔
      ∃ r length, d.select? c = some (r, length) ∧
        runActions (c.rest.take length) c.state c.buffers none r.actions = .error fault := by
  constructor
  · intro h
    obtain ⟨_, _, _, _, _, hstep⟩ | ⟨r, length, _, hselect, he, hstep⟩ | ⟨_, _, hstep⟩ |
      ⟨_, _, hstep⟩ := step_cases d c <;> rw [hstep] at h <;> cases h
    exact ⟨r, length, hselect, he⟩
  · rintro ⟨r, length, hselect, he⟩
    rw [step_of_some hselect, fire, he]

/-- A scan ends where the input has ended and no rule is active for that. -/
theorem step_eq_ended_iff : d.step c = .ended ↔ d.select? c = none ∧ c.rest = [] := by
  constructor
  · intro h
    obtain ⟨_, _, _, _, _, hstep⟩ | ⟨_, _, _, _, _, hstep⟩ | ⟨hselect, hrest, _⟩ |
      ⟨_, _, hstep⟩ := step_cases d c
    · cases hstep.symm.trans h
    · cases hstep.symm.trans h
    · exact ⟨hselect, hrest⟩
    · cases hstep.symm.trans h
  · rintro ⟨hselect, hrest⟩
    rw [step_of_none hselect, if_pos hrest]

/-- A scan is stuck where input is left and no active rule matches its beginning. -/
theorem step_eq_stuck_iff : d.step c = .stuck ↔ d.select? c = none ∧ c.rest ≠ [] := by
  constructor
  · intro h
    obtain ⟨_, _, _, _, _, hstep⟩ | ⟨_, _, _, _, _, hstep⟩ | ⟨_, _, hstep⟩ |
      ⟨hselect, hrest, _⟩ := step_cases d c
    · cases hstep.symm.trans h
    · cases hstep.symm.trans h
    · cases hstep.symm.trans h
    · exact ⟨hselect, hrest⟩
  · rintro ⟨hselect, hrest⟩
    rw [step_of_none hselect, if_neg hrest]

end Description

/-! ## Runs -/

namespace Run

variable {d : Description} {c next last : Config} {fs gs : List Firing}

theorem append (hfirst : Run d c fs next) (hnext : Run d next gs last) :
    Run d c (fs ++ gs) last := by
  induction hfirst with
  | refl _ => exact hnext
  | step hstep _ ih => exact .step hstep (ih hnext)

/-- What every step keeps, every run keeps. -/
theorem invariant {P : Config → Prop}
    (hstep : ∀ {c f next}, P c → d.step c = .moved f next → P next)
    (hrun : Run d c fs last) (hc : P c) : P last := by
  induction hrun with
  | refl _ => exact hc
  | step h _ ih => exact ih (hstep hc h)

/-- A run consumes the texts that its rules match. -/
theorem texts_append_rest (hrun : Run d c fs last) :
    fs.flatMap Firing.text ++ last.rest = c.rest := by
  induction hrun with
  | refl _ => rfl
  | @step c next last f fs hstep _ ih =>
    obtain ⟨r, length, e, _, _, rfl, rfl⟩ := Description.step_eq_moved_iff.mp hstep
    rw [List.flatMap_cons, List.append_assoc, ih]
    exact List.take_append_drop length c.rest

end Run

end FlexSynth
