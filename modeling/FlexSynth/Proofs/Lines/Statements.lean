import FlexSynth.Proofs.Lines.Reading
import FlexSynth.Proofs.Text.Digits
import FlexSynth.Scanner.Comment
import FlexSynth.Scanner.Name
import FlexSynth.Scanner.Render
import FlexSynth.Symbols
import Mathlib.Data.List.Infix

/-!
# Texts of actions

An action is written as a statement and a semicolon. The actions of scanner rules name
states and tokens, which are words, or are among a few fixed ones, so no semicolon
stands in a statement, and the statement tells the action
(`Action.Legible.readable`). That is all that reading the actions of a rule back needs.
-/

namespace FlexSynth

open Flex

/-! ## Words -/

/-- Whether a text has letters, digits and underscores only. -/
def isWord (text : String) : Bool :=
  text.toList.all isWordChar

theorem not_mem_of_isWord {text : String} {c : Char} (h : isWord text = true)
    (hc : isWordChar c = false) : c ∉ text.toList := by
  intro hmem
  rw [List.all_eq_true.mp h c hmem] at hc
  cases hc

theorem isWord_append {text more : String} (h : isWord text = true) (hmore : isWord more = true) :
    isWord (text ++ more) = true := by
  unfold isWord at *
  rw [String.toList_append, List.all_append, h, hmore]
  rfl

theorem isWord_toString (n : Nat) : isWord (toString n) = true := by
  show isWord n.repr = true
  unfold isWord
  rw [List.all_eq_true]
  intro c hc
  rw [Nat.toList_repr] at hc
  have hdigit := Text.isDigit_toDigits c hc
  simp [isWordChar, Char.isAlphanum, hdigit]

theorem isWord_commentState (n : Nat) : isWord (commentState n) = true := by
  cases n with
  | zero => decide
  | succ n => exact isWord_append (by decide) (isWord_toString _)

theorem isWord_identifier (n : Nat) : isWord (SymbolTable.identifier n) = true :=
  isWord_append (by decide) (isWord_toString n)

/-! ## Joined texts -/

/-- Two texts before a character that is in neither of them. -/
theorem eq_of_append_stop {stop : Char} {text text' rest rest' : List Char} (h : stop ∉ text)
    (h' : stop ∉ text') (heq : text ++ stop :: rest = text' ++ stop :: rest') :
    text = text' ∧ rest = rest' := by
  rcases List.append_eq_append_iff.mp heq with ⟨more, rfl, hmore⟩ | ⟨more, rfl, hmore⟩
  · cases more with
    | nil => simpa using hmore
    | cons c more =>
      obtain ⟨rfl, _⟩ := List.cons.inj hmore
      simp at h'
  · cases more with
    | nil => simpa using hmore.symm
    | cons c more =>
      obtain ⟨rfl, _⟩ := List.cons.inj hmore
      simp at h

theorem toList_joinWith (separator : String) (texts : List String) :
    (Text.joinWith separator texts).toList =
      separator.toList.intercalate (texts.map String.toList) := by
  induction texts with
  | nil => rfl
  | cons text rest ih =>
    cases rest with
    | nil => simp [Text.joinWith]
    | cons next rest =>
      rw [Text.joinWith, String.toList_append, String.toList_append, ih]
      · simp only [List.map_cons, List.intercalate_cons_cons, List.append_assoc]
      · simp

theorem joinWith_cons (separator text : String) (rest : List String) :
    Text.joinWith separator (text :: rest) =
      text ++ String.join (rest.map (separator ++ ·)) := by
  induction rest generalizing text with
  | nil => simp [Text.joinWith]
  | cons next rest ih =>
    rw [Text.joinWith, ih, List.map_cons, String.join_cons]
    · simp only [String.append_assoc]
    · simp

theorem not_mem_joinWith {separator : String} {texts : List String} {c : Char}
    (hseparator : c ∉ separator.toList) (h : ∀ text ∈ texts, c ∉ text.toList) :
    c ∉ (Text.joinWith separator texts).toList := by
  cases texts with
  | nil => exact List.not_mem_nil
  | cons text rest =>
    rw [joinWith_cons, String.toList_append, String.toList_join, List.mem_append, List.mem_flatMap]
    rintro (hmem | ⟨piece, hpiece, hmem⟩)
    · exact h text List.mem_cons_self hmem
    · obtain ⟨next, hnext, rfl⟩ := List.mem_map.mp hpiece
      rw [String.toList_append, List.mem_append] at hmem
      exact hmem.elim hseparator (h next (List.mem_cons_of_mem _ hnext))

/-! ## Statements -/

/-- The actions of scanner rules that name neither a state nor a token. -/
def fixedActions : List Action :=
  [.skip "skip", .skip "ignore white space.", .createBuffer, .appendChar none,
   .appendChar (some "\n"), .appendChar (some "\t"), .appendChar (some "\""),
   .appendChar (some "\\"), .appendText, .freeBuffer, .assign .string .buffer,
   .assign .string .text, .assign .char .firstChar, .assign .char (.constant (some "\n")),
   .assign .char (.constant (some "\t")), .assign .double .double, .assign .int .integer]

namespace Action

/-- Whether the text of the action can be read back. -/
def Legible : Action → Prop
  | .begin name | .emit name => isWord name = true
  | a => a ∈ fixedActions

instance : DecidablePred Legible
  | .begin name | .emit name => inferInstanceAs (Decidable (isWord name = true))
  | .skip _ | .createBuffer | .appendChar _ | .appendText | .freeBuffer | .assign _ _ =>
    inferInstanceAs (Decidable (_ ∈ fixedActions))

/-- The text of an action, up to its semicolon. -/
def statement (a : Action) : List Char :=
  match a.render with
  | .ok text => text.toList.dropLast
  | .error _ => []

def text (a : Action) : String :=
  String.ofList (a.statement ++ [';'])

/-- The action that a statement stands for. -/
def ofStatement? (text : List Char) : Option Action :=
  if "BEGIN ".toList <+: text then some (.begin (String.ofList (text.drop 6)))
  else if "return ".toList <+: text then some (.emit (String.ofList (text.drop 7)))
  else fixedActions.find? fun a => a.statement = text

theorem statement_begin (state : String) :
    (begin state).statement = "BEGIN ".toList ++ state.toList := by
  show ("BEGIN " ++ state ++ ";").toList.dropLast = _
  rw [String.toList_append, String.toList_append]
  exact List.dropLast_concat

theorem statement_emit (token : String) :
    (emit token).statement = "return ".toList ++ token.toList := by
  show ("return " ++ token ++ ";").toList.dropLast = _
  rw [String.toList_append, String.toList_append]
  exact List.dropLast_concat

/-- The statement ends at its semicolon, stays on its line, and starts neither with a
blank nor like a note. -/
structure Clean (text : List Char) : Prop where
  semicolon : ';' ∉ text
  newline : '\n' ∉ text
  start : text.head?.any (!isBlank ·) = true
  length : 5 ≤ text.length
  note : text.take 5 ≠ "/* sc".toList

instance : DecidablePred Clean := fun text =>
  decidable_of_iff (';' ∉ text ∧ '\n' ∉ text ∧ text.head?.any (!isBlank ·) = true ∧
      5 ≤ text.length ∧ text.take 5 ≠ "/* sc".toList)
    ⟨fun ⟨h₁, h₂, h₃, h₄, h₅⟩ => ⟨h₁, h₂, h₃, h₄, h₅⟩,
      fun ⟨h₁, h₂, h₃, h₄, h₅⟩ => ⟨h₁, h₂, h₃, h₄, h₅⟩⟩

theorem clean_append {start word : String} (hstart : Clean start.toList)
    (hword : isWord word = true) : Clean (start.toList ++ word.toList) where
  semicolon := by
    simpa using ⟨hstart.semicolon, not_mem_of_isWord hword (by decide)⟩
  newline := by
    simpa using ⟨hstart.newline, not_mem_of_isWord hword (by decide)⟩
  start := by
    obtain ⟨c, hc, hblank⟩ := Option.any_eq_true _ _ |>.mp hstart.start
    rw [List.head?_append, hc]
    exact hblank
  length := by
    rw [List.length_append]
    exact Nat.le_add_right_of_le hstart.length
  note := by
    rw [List.take_append_of_le_length hstart.length]
    exact hstart.note

/-- The text of an action is its statement and a semicolon, and the action is known by
its statement. -/
structure Readable (a : Action) : Prop where
  render : a.render = .ok a.text
  ofStatement? : Action.ofStatement? a.statement = some a
  clean : Clean a.statement

theorem readable_begin {state : String} (h : isWord state = true) : (begin state).Readable where
  render := by
    unfold text
    rw [statement_begin, String.ofList_append, String.ofList_append]
    simp only [String.ofList_toList]
    rfl
  ofStatement? := by
    unfold Action.ofStatement?
    rw [statement_begin, if_pos (List.prefix_append _ _)]
    simp
  clean := by
    rw [statement_begin]
    exact clean_append (by decide +kernel) h

theorem readable_emit {token : String} (h : isWord token = true) : (emit token).Readable where
  render := by
    unfold text
    rw [statement_emit, String.ofList_append, String.ofList_append]
    simp only [String.ofList_toList]
    rfl
  ofStatement? := by
    have hbegin : ¬"BEGIN ".toList <+: "return ".toList ++ token.toList := by simp
    unfold Action.ofStatement?
    rw [statement_emit, if_neg hbegin, if_pos (List.prefix_append _ _)]
    simp
  clean := by
    rw [statement_emit]
    exact clean_append (by decide +kernel) h

theorem readable_fixed {a : Action} (h : a ∈ fixedActions) : a.Readable := by
  have hfixed : ∀ a ∈ fixedActions, a.render = .ok a.text ∧
      Action.ofStatement? a.statement = some a ∧ Clean a.statement := by decide +kernel
  obtain ⟨hrender, hof, hclean⟩ := hfixed a h
  exact ⟨hrender, hof, hclean⟩

theorem Legible.readable {a : Action} (h : a.Legible) : a.Readable := by
  cases a with
  | begin state => exact readable_begin h
  | emit token => exact readable_emit h
  | _ => exact readable_fixed h

end Action

end FlexSynth
