import FlexSynth.Proofs.Regex.Pieces

/-!
# When an expression has no pattern

An expression is refused just when it is empty or an expression that is rendered for it has a
fault (`refused_iff_faulty`). The cause is never that an empty expression was met on the way, for
whoever renders an expression has looked whether it is empty. For the same reason no pattern has
an empty literal in it (`solid_of_pattern`).
-/

namespace FlexSynth

open Flex
open MeaningLemmas (standard lexes_symbol lexes_use lexesAsSet_any lexesAsSet_named)

/-! ## Literals that are not empty -/

/-- The text is read as tokens, and none of them is an empty literal. -/
def Solid (text : String) : Prop :=
  ∃ ts, Lexes standard text.toList ts ∧ Token.atom (.literal []) ∉ ts

theorem Solid.append {text more : String} (h : Solid text) (h' : Solid more) :
    Solid (text ++ more) := by
  obtain ⟨ts, hlex, hts⟩ := h
  obtain ⟨us, hlex', hus⟩ := h'
  refine ⟨ts ++ us, ?_, fun hmem => (List.mem_append.mp hmem).elim hts hus⟩
  rw [String.toList_append]
  exact hlex.append hlex'

theorem solid_token {text : String} {t : Token} (h : Lexes standard text.toList [t])
    (ht : Token.atom (.literal []) ≠ t) : Solid text :=
  ⟨[t], h, fun hmem => ht (List.mem_singleton.mp hmem)⟩

theorem solid_use (cls : CharClass) : Solid cls.use :=
  solid_token (lexes_use cls) (by cases cls <;> decide)

theorem solid_bracketed {text : String} {r : Regex} (h : MeaningLemmas.LexesAsSet text r) :
    Solid text := by
  obtain ⟨s, hlex, _⟩ := h
  exact solid_token hlex (by rintro ⟨⟩)

theorem solid_sign {text : String} (h : text ∈ patternSigns) : Solid text := by
  have hplain {c : Char} {t : Token} (hc : IsSimple c) (ht : plainToken? c = some t)
      (hsolid : Token.atom (.literal []) ≠ t) : Solid (String.ofList [c]) := by
    refine solid_token (t := t) ?_ hsolid
    rw [String.toList_ofList]
    exact lexes_plain hc ht
  rcases List.mem_append.mp h with h | h
  · simp only [List.mem_cons, List.not_mem_nil, or_false] at h
    rcases h with rfl | rfl | rfl | rfl | rfl | rfl | rfl | rfl | rfl | rfl
    · exact hplain (c := '(') (by decide) rfl (by decide)
    · exact hplain (c := ')') (by decide) rfl (by decide)
    · exact hplain (c := '|') (by decide) rfl (by decide)
    · exact solid_token (lexes_symbol .star) (by decide)
    · exact solid_token (lexes_symbol .plus) (by decide)
    · exact solid_token (lexes_symbol .opt) (by decide)
    · exact solid_token (lexes_braces ['+'] (by simp) rfl) (by decide)
    · exact solid_token (lexes_braces ['-'] (by simp) rfl) (by decide)
    · exact hplain (c := '.') (by decide) rfl (by decide)
    · exact solid_bracketed lexesAsSet_any
  · obtain ⟨cls, _, hcls⟩ := List.mem_flatMap.mp h
    simp only [List.mem_cons, List.not_mem_nil, or_false] at hcls
    rcases hcls with rfl | rfl
    · exact solid_bracketed (lexesAsSet_named cls)
    · exact solid_use cls

/-- Whatever is written in a pattern is solid, but an empty literal. -/
theorem solid_pieces : PieceRule (· ≠ "") (fun _ => True) Solid where
  append := Solid.append
  literal := by
    intro text hne
    refine solid_token (lexes_cString text) ?_
    intro hempty
    cases htext : text.toList with
    | nil => exact hne (by simpa using htext)
    | cons c cs =>
      rw [htext] at hempty
      cases hempty
  bracket := by
    intro chars hne _
    exact solid_token (lexes_bracket hne) (by rintro ⟨⟩)
  sign := fun _ h => solid_sign h

/-! ## Literals of a pattern -/

namespace Regex

variable {r s : Regex} {text : String} {fault : PatternFault}

theorem HasSingleChars.of_renders (h : r.HasSingleChars) (hs : r.Renders s) :
    s.HasSingleChars := by
  induction hs with
  | self r => exact h
  | seqLeft _ _ ih | altLeft _ _ ih => exact ih h.1
  | seqRight _ _ ih | altRight _ _ ih => exact ih h.2
  | star _ ih | plus _ ih | opt _ ih => exact ih h

/-- No literal of a pattern is empty. -/
theorem Writes.ne_empty (hr : r.HasSingleChars) (hvoid : ¬r.Void)
    (hnone : ∀ fault, ¬r.Blames fault) (h : r.Writes text) : text ≠ "" := by
  rintro rfl
  rcases h with h | h
  · exact absurd (hr.of_renders h) (by decide)
  · exact h.not_void hvoid hnone .word

theorem solid_of_pattern (hr : r.HasSingleChars) (h : r.pattern = .ok text) : Solid text := by
  have hrefused : ¬(r.Void ∨ ∃ fault, r.Blames fault) := by
    rw [← exists_pattern_eq_error_iff, h]
    rintro ⟨_, ⟨⟩⟩
  obtain ⟨hvoid, hnone⟩ := not_or.mp hrefused
  exact solid_pieces.pattern (.inl hr) (allSets_of_forall (fun _ => trivial) r)
    (fun _ => Writes.ne_empty hr hvoid fun fault hfault => hnone ⟨fault, hfault⟩) h

/-! ## Faults that are never met -/

/-- The faults that an expression can have: it is empty, or an expression that is rendered for it
has one of its own. -/
def faults : List PatternFault :=
  [.emptyExpression, .emptySet, .emptyAlternation, .emptyOperand .star, .emptyOperand .plus,
    .emptyOperand .opt, .notClasses]

theorem mem_faults_of_pattern (h : r.pattern = .error fault) : fault ∈ faults := by
  rcases fault_of_pattern h with ⟨_, rfl⟩ | ⟨_, s, _, hs⟩
  · decide
  · cases hs <;> decide

/-- An empty expression is never met on the way. -/
theorem message_of_mem_faults (h : fault ∈ faults) :
    fault.message ≠ "empty regular expression cannot be rendered here" := by
  have hmessages : ∀ fault ∈ faults,
      fault.message ≠ "empty regular expression cannot be rendered here" := by decide
  exact hmessages fault h

end Regex

/-- An expression whose characters are single is refused just when it is empty or an expression
that is rendered for it has a fault, which is then the cause. The cause is a fault of an
expression, never that an empty one was met on the way. The pattern of the expression, when it has
one, is read without an empty literal. -/
theorem refused_iff_faulty {r : Regex} (hr : r.HasSingleChars) :
    ((∃ fault, r.pattern = .error fault) ↔ r.Void ∨ ∃ fault, r.Blames fault) ∧
    (∀ fault, r.pattern = .error fault →
      (r.Void ∧ fault = .emptyExpression ∨ ¬r.Void ∧ r.Blames fault) ∧
      fault ∈ Regex.faults ∧
      fault.message ≠ "empty regular expression cannot be rendered here") ∧
    ∀ text, r.pattern = .ok text → ∃ ts,
      tokens? (macroPattern? standardMacros) text.toList = some ts ∧
      Token.atom (.literal []) ∉ ts := by
  refine ⟨Regex.exists_pattern_eq_error_iff, fun fault h => ?refused, fun text h => ?written⟩
  case refused =>
    have hmem := Regex.mem_faults_of_pattern h
    exact ⟨Regex.fault_of_pattern h, hmem, Regex.message_of_mem_faults hmem⟩
  case written =>
    obtain ⟨ts, hlex, hsolid⟩ := Regex.solid_of_pattern hr h
    exact ⟨ts, hlex.tokens?_eq, hsolid⟩

/-- An empty factor, a difference of a literal, and an option of nothing. -/
def refusedRegex : Regex :=
  .seq .eps (.alt (.minus (.char "a") (.word "b")) (.opt (.seq (.word "") .eps)))

theorem refused_iff_faulty_difference : refusedRegex.HasSingleChars ∧
    refusedRegex.pattern = .error .notClasses ∧ refusedRegex.Blames .notClasses := by
  have hr : refusedRegex.HasSingleChars := by decide
  have hrefused : refusedRegex.pattern = .error .notClasses := by decide
  obtain ⟨_, hcause, _⟩ := refused_iff_faulty hr
  rcases (hcause _ hrefused).1 with ⟨_, ⟨⟩⟩ | ⟨_, hblames⟩
  exact ⟨hr, hrefused, hblames⟩

end FlexSynth
