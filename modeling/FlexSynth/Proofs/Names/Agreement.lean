import FlexSynth.Proofs.Editor
import FlexSynth.Proofs.Regex.Meaning
import FlexSynth.Proofs.Run.Reported
import Mathlib.Data.Char

/-!
# One rule for names

What a scanner may be called is decided in three places. The command line matches the name with
a pattern (`hasNameForm_iff_mem`). The generator asks for an identifier of Unicode with no
character beyond ASCII (`isCIdentifier_iff_identifies`). And a name that nobody chose is made
from that of a file, which may hold any characters. Nothing catches the refusal of the
generator, so a name that passed only one of the checks would end the program from inside.

There is no such name (`scanner_names_agree`): the checks are the same, a name that is made
passes them, and so neither a run nor an editor ever meets that refusal.
-/

namespace FlexSynth

open Flex (CharSet Pattern inRanges isUpper_iff isLower_iff isDigit_iff)

/-! ## The rule as a pattern -/

/-- A letter or an underscore, and after it letters, digits and underscores. -/
def namePattern : Pattern :=
  .seq (.set (.members [('A', 'Z'), ('a', 'z'), ('_', '_')]))
    (.star (.set (.members [('A', 'Z'), ('a', 'z'), ('0', '9'), ('_', '_')])))

example : Flex.read [] "[A-Za-z_][A-Za-z0-9_]*" = some namePattern := by
  decide

theorem isNameStart_iff (c : Char) : (c.isAlpha || c == '_') = true ↔
    (CharSet.members [('A', 'Z'), ('a', 'z'), ('_', '_')]).contains c = true := by
  have hunderscore : c = '_' ↔ '_' ≤ c ∧ c ≤ '_' := ge_antisymm_iff
  show (c.isUpper || c.isLower || c == '_') = true ↔ _
  simp [isUpper_iff, isLower_iff, CharSet.contains, inRanges, hunderscore, or_assoc]

theorem isWordChar_iff (c : Char) : isWordChar c = true ↔
    (CharSet.members [('A', 'Z'), ('a', 'z'), ('0', '9'), ('_', '_')]).contains c = true := by
  have hunderscore : c = '_' ↔ '_' ≤ c ∧ c ≤ '_' := ge_antisymm_iff
  show (c.isUpper || c.isLower || c.isDigit || c == '_') = true ↔ _
  simp [isUpper_iff, isLower_iff, isDigit_iff, CharSet.contains, inRanges, hunderscore, or_assoc]

theorem hasNameForm_iff_mem (name : List Char) :
    hasNameForm name = true ↔ name ∈ namePattern.language := by
  unfold namePattern
  rw [Pattern.mem_seq]
  constructor
  · intro h
    cases name with
    | nil => cases h
    | cons c rest =>
      rw [hasNameForm, Bool.and_eq_true, isNameStart_iff, List.all_eq_true] at h
      exact ⟨[c], Pattern.mem_set.mpr ⟨c, rfl, h.1⟩, rest,
        Pattern.mem_star_set.mpr fun d hd => (isWordChar_iff d).mp (h.2 d hd), rfl⟩
  · rintro ⟨u, hu, rest, hrest, rfl⟩
    obtain ⟨c, rfl, hc⟩ := Pattern.mem_set.mp hu
    rw [List.singleton_append, hasNameForm, Bool.and_eq_true, isNameStart_iff, List.all_eq_true]
    exact ⟨hc, fun d hd => (isWordChar_iff d).mpr (Pattern.mem_star_set.mp hrest d hd)⟩

/-! ## Identifiers of Unicode -/

/-- Which characters may start an identifier, and which may follow. Unicode decides that beyond
ASCII, where the theorems leave it open. -/
structure IdentifierClasses where
  starts : Char → Prop
  continues : Char → Prop
  starts_ascii : ∀ c, c.toNat < 0x80 → (starts c ↔ c.isAlpha = true ∨ c = '_')
  continues_ascii : ∀ c, c.toNat < 0x80 → (continues c ↔ isWordChar c = true)

/-- The widest classes have all characters beyond ASCII. -/
instance : Inhabited IdentifierClasses where
  default := {
    starts := fun c => 0x80 ≤ c.toNat ∨ c.isAlpha = true ∨ c = '_'
    continues := fun c => 0x80 ≤ c.toNat ∨ isWordChar c = true
    starts_ascii := fun _ hc => or_iff_right (Nat.not_le_of_lt hc)
    continues_ascii := fun _ hc => or_iff_right (Nat.not_le_of_lt hc) }

def IdentifierClasses.Identifies (classes : IdentifierClasses) (text : List Char) : Prop :=
  ∃ first rest, text = first :: rest ∧ classes.starts first ∧ ∀ c ∈ rest, classes.continues c

theorem toNat_lt_of_isWordChar {c : Char} (h : isWordChar c = true) : c.toNat < 0x80 := by
  have hbound {low high : Char} (hhigh : high.toNat < 0x80) (hc : low ≤ c ∧ c ≤ high) :
      c.toNat < 0x80 := Nat.lt_of_le_of_lt (UInt32.le_iff_toNat_le.mp hc.2) hhigh
  change (c.isUpper || c.isLower || c.isDigit || c == '_') = true at h
  simp only [Bool.or_eq_true, isUpper_iff, isLower_iff, isDigit_iff,
    beq_iff_eq] at h
  rcases h with ((hupper | hlower) | hdigit) | rfl
  · exact hbound (by decide) hupper
  · exact hbound (by decide) hlower
  · exact hbound (by decide) hdigit
  · decide

/-- The generator can use the identifiers of Unicode that are written in ASCII. -/
theorem isCIdentifier_iff_identifies (classes : IdentifierClasses) (name : String) :
    isCIdentifier name = true ↔
      (∀ c ∈ name.toList, c.toNat < 0x80) ∧ classes.Identifies name.toList := by
  rw [isCIdentifier_eq_hasNameForm]
  cases name.toList with
  | nil => simp [hasNameForm, IdentifierClasses.Identifies]
  | cons first rest =>
    rw [hasNameForm, Bool.and_eq_true, Bool.or_eq_true, beq_iff_eq, List.all_eq_true,
      List.forall_mem_cons]
    constructor
    · rintro ⟨hfirst, hrest⟩
      have hword : isWordChar first = true := by
        unfold isWordChar Char.isAlphanum
        rcases hfirst with h | rfl
        · simp [h]
        · decide
      have hascii : ∀ c ∈ rest, c.toNat < 0x80 := fun c hc => toNat_lt_of_isWordChar (hrest c hc)
      refine ⟨⟨toNat_lt_of_isWordChar hword, hascii⟩, first, rest, rfl, ?_, ?_⟩
      · exact (classes.starts_ascii first (toNat_lt_of_isWordChar hword)).mpr hfirst
      · exact fun c hc => (classes.continues_ascii c (hascii c hc)).mpr (hrest c hc)
    · rintro ⟨⟨hfirst, hascii⟩, _, _, hsame, hstarts, hcontinues⟩
      cases hsame
      exact ⟨(classes.starts_ascii first hfirst).mp hstarts,
        fun c hc => (classes.continues_ascii c (hascii c hc)).mp (hcontinues c hc)⟩

/-! ## The two checks -/

/-- The checks let the same names through. -/
theorem parseName_checked (options : GeneratorOptions) :
    parseName options.name = .ok options.name ∧ options.checked = .ok options ∨
      parseName options.name = .error (.invalidName options.name) ∧
        options.checked = .error ⟨options.name⟩ := by
  unfold parseName GeneratorOptions.checked
  rw [isCIdentifier_eq_hasNameForm]
  cases hasNameForm options.name.toList with
  | true => exact .inl ⟨rfl, rfl⟩
  | false => exact .inr ⟨rfl, rfl⟩

/-- The checks let every name through that is made from a path. -/
theorem checked_defaultName (file : Path) (options : GeneratorOptions) :
    parseName (defaultName file) = .ok (defaultName file) ∧
      GeneratorOptions.checked { options with name := defaultName file } =
        .ok { options with name := defaultName file } := by
  have hname : isCIdentifier (defaultName file) = true := isCIdentifier_defaultName file
  refine ⟨parseName_eq_ok_iff.mpr ⟨rfl, ?_⟩, checked_eq_ok_iff.mpr ⟨rfl, hname⟩⟩
  rw [← isCIdentifier_eq_hasNameForm]
  exact hname

-- The file name has points, a blank and a digit beyond ASCII.
example : defaultName (.ofString "dir/2٣ é..json") = "_2____" := by
  decide +kernel

/-! ## Where the generator is called -/

theorem prepareOptions_ne_unusable {a : Arguments} {files : FileTree} {e : UnusableName}
    {output : Output} :
    prepareOptions a files ≠ .error ⟨.failed (.options (.unusable e)), output⟩ := by
  intro h
  unfold prepareOptions at h
  cases hload : loadConfig a files with
  | error fault =>
    rw [hload] at h
    cases fault <;> cases h
  | ok config =>
    simp only [hload] at h
    cases hresolve : RunOptions.resolve a config with
    | ok options =>
      rw [hresolve] at h
      cases h
    | error fault =>
      rw [hresolve] at h
      cases fault with
      | unusable e' => exact resolve_ne_unusable hresolve
      | _ => cases h

/-- An editor gets an answer, or else an integer of the text is too long. It is never for the name
that there is none. -/
theorem exists_validate (uri source : String) :
    (∃ publications, validate uri source = .ok publications) ∨
      ∃ e offset, Json.decode source = .error ⟨.longInteger e, offset⟩ ∧
        validate uri source = .error (.longInteger e) := by
  cases hparse : LexicalGrammar.parse source (fileNameOf uri) with
  | error fault =>
    cases fault with
    | rejected e => exact .inl ⟨_, validate_of_rejected hparse⟩
    | longInteger e =>
      obtain ⟨offset, hdecode⟩ := decode_of_parse_longInteger hparse
      exact .inr ⟨e, offset, hdecode, validate_of_longInteger hparse⟩
  | ok g =>
    obtain ⟨options, hvalidate⟩ := validate_of_loaded hparse
    refine .inl ?_
    rw [hvalidate]
    split
    · exact ⟨_, rfl⟩
    · exact ⟨_, rfl⟩

/-- The rules for names agree. The command line takes a name exactly when the generator does:
when it matches the pattern of a name, which is to be an identifier of Unicode in ASCII. The
name that is made from a path is taken by both, whatever the path is. So the generator refuses
nothing that the command line, with any configuration, or an editor gives to it. -/
theorem scanner_names_agree :
    (∀ options : GeneratorOptions,
      parseName options.name = .ok options.name ∧ options.checked = .ok options ∨
        parseName options.name = .error (.invalidName options.name) ∧
          options.checked = .error ⟨options.name⟩) ∧
    (∀ name, parseName name = .ok name ↔ name.toList ∈ namePattern.language) ∧
    (∀ (classes : IdentifierClasses) (options : GeneratorOptions),
      options.checked = .ok options ↔ (∀ c ∈ options.name.toList, c.toNat < 0x80) ∧
        classes.Identifies options.name.toList) ∧
    (∀ (file : Path) (options : GeneratorOptions),
      parseName (defaultName file) = .ok (defaultName file) ∧
        GeneratorOptions.checked { options with name := defaultName file } =
          .ok { options with name := defaultName file }) ∧
    (∀ a config e, RunOptions.resolve a config ≠ .error (.unusable e)) ∧
    (∀ a files e output,
      prepareOptions a files ≠ .error ⟨.failed (.options (.unusable e)), output⟩) ∧
    ∀ uri source, (∃ publications, validate uri source = .ok publications) ∨
      ∃ e offset, Json.decode source = .error ⟨.longInteger e, offset⟩ ∧
        validate uri source = .error (.longInteger e) := by
  refine ⟨parseName_checked, ?_, ?_, checked_defaultName, ?_, ?_, exists_validate⟩
  · intro name
    rw [parseName_eq_ok_iff, and_iff_right rfl, hasNameForm_iff_mem]
  · intro classes options
    rw [checked_eq_ok_iff, and_iff_right rfl, isCIdentifier_iff_identifies classes]
  · exact fun _ _ _ => resolve_ne_unusable
  · exact fun _ _ _ _ => prepareOptions_ne_unusable

end FlexSynth
