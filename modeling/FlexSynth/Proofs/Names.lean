import FlexSynth.CommandLine.Options

/-!
# Names of scanners

Three places have to agree on what the name of a scanner looks like: the check of a name that
was chosen, the check of the generator, and the name that is made from that of a file. The two
checks are the same (`isCIdentifier_eq_hasNameForm`), and a name that is made passes them
(`isCIdentifier_defaultName`).
-/

namespace FlexSynth

/-- The command line asks for the form of a name that the generator can use. -/
theorem isCIdentifier_eq_hasNameForm (name : String) :
    isCIdentifier name = hasNameForm name.toList := by
  unfold isCIdentifier
  cases name.toList with
  | nil => rfl
  | cons c rest =>
    have hfirst : (isWordChar c && !c.isDigit) = (c.isAlpha || c == '_') := by
      unfold isWordChar Char.isAlphanum
      cases hdigit : c.isDigit with
      | false => simp
      | true =>
        have hunderscore : c ≠ '_' := by
          rintro rfl
          cases hdigit
        have hletter : c.isAlpha = false := by
          unfold Char.isDigit at hdigit
          unfold Char.isAlpha Char.isUpper Char.isLower
          simp [UInt32.le_iff_toNat_le] at hdigit ⊢
          omega
        simp [hunderscore, hletter]
    rw [hasNameForm, ← hfirst, List.all_cons, List.head?_cons, Bool.and_right_comm]

theorem parseName_eq_ok_iff {name parsed : String} :
    parseName name = .ok parsed ↔ parsed = name ∧ hasNameForm name.toList = true := by
  unfold parseName
  split
  · next hform => simp [hform, eq_comm]
  · next hform => simp [hform]

theorem checked_eq_ok_iff {options checked : GeneratorOptions} :
    options.checked = .ok checked ↔ checked = options ∧ isCIdentifier options.name = true := by
  unfold GeneratorOptions.checked
  split
  · next hname => simp [hname, eq_comm]
  · next hname => simp [hname]

theorem isWordChar_startName {cs : List Char} (h : ∀ c ∈ cs, isWordChar c = true) :
    ∀ c ∈ startName cs, isWordChar c = true := by
  unfold startName
  split
  · exact List.all_eq_true.mp (by decide)
  · next first rest =>
    split
    · intro c hc
      rcases List.mem_cons.mp hc with rfl | hc
      · decide
      · exact h c hc
    · exact h

theorem head?_startName (cs : List Char) :
    ∃ first rest, startName cs = first :: rest ∧ first.isDigit = false := by
  unfold startName
  split
  · exact ⟨_, _, rfl, by decide⟩
  · next first rest =>
    split
    · exact ⟨_, _, rfl, by decide⟩
    · next hdigit => exact ⟨first, rest, rfl, by simpa using hdigit⟩

/-- The name that is made from that of a file can be used. -/
theorem isCIdentifier_defaultName (file : Path) : isCIdentifier (defaultName file) = true := by
  have hword : ∀ c ∈ file.stem.toList.map (fun c => if isWordChar c then c else '_'),
      isWordChar c = true := by
    intro c hc
    obtain ⟨original, _, rfl⟩ := List.mem_map.mp hc
    split
    · assumption
    · decide
  obtain ⟨first, rest, hstart, hdigit⟩ := head?_startName
    (file.stem.toList.map fun c => if isWordChar c then c else '_')
  unfold isCIdentifier defaultName
  rw [String.toList_ofList, List.all_eq_true.mpr (isWordChar_startName hword), hstart]
  simp [hdigit]

end FlexSynth
