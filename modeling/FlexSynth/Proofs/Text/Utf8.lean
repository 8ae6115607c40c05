import FlexSynth.Text.Utf8

/-!
# Encoded texts are read back

What `encode` writes, `decode` reads (`decode_encode`). The octets of a character are read one
by one: the first announces how many follow and in which range the second must lie, and each
of the others brings six bits. The range of the second octet leaves out just the overlong
forms, the surrogates and what lies above all characters, and the encoding of a character is
none of these.

Reading a text file then unifies the line ends, which changes carriage returns and the
newlines after them, and nothing else (`unifyNewlines_cases`).
-/

namespace FlexSynth.Text

/-! ## Octets -/

section

variable {start v n bits seen owed low high : Nat} {b first : UInt8} {rest : List UInt8} {c : Char}

theorem toNat_octet (h : n < 256) : (UInt8.ofNat n).toNat = n :=
  UInt8.toNat_ofNat_of_lt' h

theorem decodeFrom_none_cons : decodeFrom start none (b :: rest) =
    if b.toNat < 0x80 then (decodeFrom (start + 1) none rest).map (Char.ofNat b.toNat :: ·)
    else match Utf8Pending.ofFirst? b with
      | some p => decodeFrom start (some p) rest
      | none => .error ⟨.startOctet, b, start, 1⟩ :=
  rfl

theorem decodeFrom_some_cons {p : Utf8Pending} : decodeFrom start (some p) (b :: rest) =
    match p.push? b with
    | none => .error ⟨.continuationOctet, p.first, start, p.seen⟩
    | some q =>
      if q.owed = 0 then (decodeFrom (start + q.seen) none rest).map (Char.ofNat q.bits :: ·)
      else decodeFrom start (some q) rest :=
  rfl

theorem decodeFrom_ascii (hb : b.toNat = v) (hv : v < 0x80) (hc : Char.ofNat v = c) :
    decodeFrom start none (b :: rest) = (decodeFrom (start + 1) none rest).map (c :: ·) := by
  rw [decodeFrom_none_cons, hb, if_pos hv, hc]

theorem decodeFrom_first {p : Utf8Pending} (h : Utf8Pending.ofFirst? b = some p)
    (hb : 0x80 ≤ b.toNat) : decodeFrom start none (b :: rest) = decodeFrom start (some p) rest := by
  rw [decodeFrom_none_cons, if_neg (Nat.not_lt.mpr hb), h]

/-- An octet that is not the last one brings six bits. -/
theorem decodeFrom_next (hb : b.toNat = n) (hlow : low ≤ n) (hhigh : n ≤ high) :
    decodeFrom start (some ⟨first, bits, seen, owed + 2, low, high⟩) (b :: rest) =
      decodeFrom start (some ⟨first, bits * 64 + n % 64, seen + 1, owed + 1, 0x80, 0xbf⟩) rest := by
  simp [decodeFrom_some_cons, Utf8Pending.push?, hb, hlow, hhigh]

/-- The last octet brings six bits and finishes the character. -/
theorem decodeFrom_last (hb : b.toNat = n) (hlow : low ≤ n) (hhigh : n ≤ high)
    (hc : Char.ofNat (bits * 64 + n % 64) = c) :
    decodeFrom start (some ⟨first, bits, seen, 1, low, high⟩) (b :: rest) =
      (decodeFrom (start + (seen + 1)) none rest).map (c :: ·) := by
  simp [decodeFrom_some_cons, Utf8Pending.push?, hb, hlow, hhigh, hc]

/-! ## Characters by the number of their octets -/

theorem decodeFrom_two (hlow : 0x80 ≤ v) (hhigh : v < 0x800) (hc : Char.ofNat v = c) :
    decodeFrom start none
        (UInt8.ofNat (v / 64 % 32 + 192) :: UInt8.ofNat (v % 64 + 128) :: rest) =
      (decodeFrom (start + 2) none rest).map (c :: ·) := by
  generalize hn₁ : v / 64 % 32 + 192 = n₁
  generalize hn₂ : v % 64 + 128 = n₂
  have h₁ : (UInt8.ofNat n₁).toNat = n₁ := toNat_octet (by omega)
  have h₂ : (UInt8.ofNat n₂).toNat = n₂ := toNat_octet (by omega)
  have hfirst : Utf8Pending.ofFirst? (UInt8.ofNat n₁) =
      some ⟨UInt8.ofNat n₁, n₁ % 32, 1, 1, 0x80, 0xbf⟩ := by
    rw [Utf8Pending.ofFirst?, h₁]
    exact if_pos (by omega)
  have hbits : n₁ % 32 * 64 + n₂ % 64 = v := by omega
  rw [decodeFrom_first hfirst (by omega),
    decodeFrom_last h₂ (by omega) (by omega) (by rw [hbits, hc])]

/-- The first of three octets leaves out the overlong forms and the surrogates. -/
theorem ofFirst?_three {n₁ n₂ : Nat} (h₁ : b.toNat = n₁) (hn₁ : v / 4096 % 16 + 224 = n₁)
    (hn₂ : v / 64 % 64 + 128 = n₂) (hlow : 0x800 ≤ v) (hhigh : v < 0x10000)
    (hvalid : v < 0xd800 ∨ 0xdfff < v) :
    ∃ low high, Utf8Pending.ofFirst? b = some ⟨b, n₁ % 16, 1, 2, low, high⟩ ∧
      low ≤ n₂ ∧ n₂ ≤ high := by
  rw [Utf8Pending.ofFirst?, h₁, if_neg (by omega)]
  split
  · exact ⟨_, _, rfl, by omega, by omega⟩
  · split
    · exact ⟨_, _, rfl, by omega, by omega⟩
    · rw [if_pos (by omega)]
      exact ⟨_, _, rfl, by omega, by omega⟩

theorem decodeFrom_three (hlow : 0x800 ≤ v) (hhigh : v < 0x10000)
    (hvalid : v < 0xd800 ∨ 0xdfff < v) (hc : Char.ofNat v = c) :
    decodeFrom start none (UInt8.ofNat (v / 4096 % 16 + 224) ::
        UInt8.ofNat (v / 64 % 64 + 128) :: UInt8.ofNat (v % 64 + 128) :: rest) =
      (decodeFrom (start + 3) none rest).map (c :: ·) := by
  generalize hn₁ : v / 4096 % 16 + 224 = n₁
  generalize hn₂ : v / 64 % 64 + 128 = n₂
  generalize hn₃ : v % 64 + 128 = n₃
  have h₁ : (UInt8.ofNat n₁).toNat = n₁ := toNat_octet (by omega)
  have h₂ : (UInt8.ofNat n₂).toNat = n₂ := toNat_octet (by omega)
  have h₃ : (UInt8.ofNat n₃).toNat = n₃ := toNat_octet (by omega)
  obtain ⟨low, high, hfirst, hl, hh⟩ := ofFirst?_three h₁ hn₁ hn₂ hlow hhigh hvalid
  have hbits : (n₁ % 16 * 64 + n₂ % 64) * 64 + n₃ % 64 = v := by omega
  rw [decodeFrom_first hfirst (by omega), decodeFrom_next h₂ hl hh,
    decodeFrom_last h₃ (by omega) (by omega) (by rw [hbits, hc])]

/-- The first of four octets leaves out the overlong forms and what lies above all
characters. -/
theorem ofFirst?_four {n₁ n₂ : Nat} (h₁ : b.toNat = n₁) (hn₁ : v / 262144 % 8 + 240 = n₁)
    (hn₂ : v / 4096 % 64 + 128 = n₂) (hlow : 0x10000 ≤ v) (hhigh : v < 0x110000) :
    ∃ low high, Utf8Pending.ofFirst? b = some ⟨b, n₁ % 8, 1, 3, low, high⟩ ∧
      low ≤ n₂ ∧ n₂ ≤ high := by
  rw [Utf8Pending.ofFirst?, h₁, if_neg (by omega), if_neg (by omega), if_neg (by omega), if_neg (by omega)]
  split
  · exact ⟨_, _, rfl, by omega, by omega⟩
  · split
    · exact ⟨_, _, rfl, by omega, by omega⟩
    · rw [if_pos (by omega)]
      exact ⟨_, _, rfl, by omega, by omega⟩

theorem decodeFrom_four (hlow : 0x10000 ≤ v) (hhigh : v < 0x110000) (hc : Char.ofNat v = c) :
    decodeFrom start none (UInt8.ofNat (v / 262144 % 8 + 240) ::
        UInt8.ofNat (v / 4096 % 64 + 128) :: UInt8.ofNat (v / 64 % 64 + 128) ::
        UInt8.ofNat (v % 64 + 128) :: rest) =
      (decodeFrom (start + 4) none rest).map (c :: ·) := by
  generalize hn₁ : v / 262144 % 8 + 240 = n₁
  generalize hn₂ : v / 4096 % 64 + 128 = n₂
  generalize hn₃ : v / 64 % 64 + 128 = n₃
  generalize hn₄ : v % 64 + 128 = n₄
  have h₁ : (UInt8.ofNat n₁).toNat = n₁ := toNat_octet (by omega)
  have h₂ : (UInt8.ofNat n₂).toNat = n₂ := toNat_octet (by omega)
  have h₃ : (UInt8.ofNat n₃).toNat = n₃ := toNat_octet (by omega)
  have h₄ : (UInt8.ofNat n₄).toNat = n₄ := toNat_octet (by omega)
  obtain ⟨low, high, hfirst, hl, hh⟩ := ofFirst?_four h₁ hn₁ hn₂ hlow hhigh
  have hbits : ((n₁ % 8 * 64 + n₂ % 64) * 64 + n₃ % 64) * 64 + n₄ % 64 = v := by omega
  rw [decodeFrom_first hfirst (by omega), decodeFrom_next h₂ hl hh,
    decodeFrom_next h₃ (by omega) (by omega),
    decodeFrom_last h₄ (by omega) (by omega) (by rw [hbits, hc])]

/-! ## Texts -/

/-- The octets of a character are read as that character. -/
theorem decodeFrom_utf8EncodeChar (c : Char) (start : Nat) (rest : List UInt8) :
    ∃ next, decodeFrom start none (String.utf8EncodeChar c ++ rest) =
      (decodeFrom next none rest).map (c :: ·) := by
  have hvalid : c.toNat < 0xd800 ∨ 0xdfff < c.toNat ∧ c.toNat < 0x110000 := c.valid
  have hc : Char.ofNat c.toNat = c := Char.ofNat_toNat c
  have hv : c.val.toNat = c.toNat := rfl
  unfold String.utf8EncodeChar
  rw [hv]
  dsimp only
  split
  · exact ⟨start + 1, decodeFrom_ascii (toNat_octet (by omega)) (by omega) hc⟩
  · split
    · exact ⟨start + 2, decodeFrom_two (by omega) (by omega) hc⟩
    · split
      · exact ⟨start + 3, decodeFrom_three (by omega) (by omega) (by omega) hc⟩
      · exact ⟨start + 4, decodeFrom_four (by omega) (by omega) hc⟩

theorem decodeFrom_flatMap (cs : List Char) (start : Nat) :
    decodeFrom start none (cs.flatMap String.utf8EncodeChar) = .ok cs := by
  induction cs generalizing start with
  | nil => rfl
  | cons c cs ih =>
    obtain ⟨next, hnext⟩ := decodeFrom_utf8EncodeChar c start (cs.flatMap String.utf8EncodeChar)
    rw [List.flatMap_cons, hnext, ih]
    rfl

/-- What is encoded is read back. -/
theorem decode_encode (text : String) : decode (encode text) = .ok text := by
  rw [decode, encode, decodeFrom_flatMap, Except.map, String.ofList_toList]

end

/-! ## Line ends -/

section

variable {c : Char} {cs rest : List Char}

theorem unifyNewlines_cons (h : c ≠ '\r') :
    unifyNewlines (c :: rest) = c :: unifyNewlines rest := by
  rw [unifyNewlines]
  · rintro _ rfl
    exact absurd rfl h
  · rintro rfl
    exact absurd rfl h

theorem unifyNewlines_return (rest : List Char) :
    ∃ more, unifyNewlines ('\r' :: rest) = '\n' :: more := by
  cases rest with
  | nil => exact ⟨[], rfl⟩
  | cons c more =>
    by_cases hc : c = '\n'
    · subst hc
      exact ⟨_, rfl⟩
    · refine ⟨unifyNewlines (c :: more), ?_⟩
      rw [unifyNewlines]
      rintro _ ⟨⟩
      exact hc rfl

theorem unifyNewlines_of_not_mem (h : '\r' ∉ cs) : unifyNewlines cs = cs := by
  induction cs with
  | nil => rfl
  | cons c rest ih =>
    rw [List.mem_cons, not_or] at h
    rw [unifyNewlines_cons (Ne.symm h.1), ih h.2]

/-- What a text starts with stays, unless it is a carriage return. -/
theorem unifyNewlines_cases (cs : List Char) :
    cs = [] ∨ (∃ c rest, c ≠ '\r' ∧ cs = c :: rest ∧
      unifyNewlines cs = c :: unifyNewlines rest) ∨
    ∃ rest more, cs = '\r' :: rest ∧ unifyNewlines cs = '\n' :: more := by
  cases cs with
  | nil => exact .inl rfl
  | cons c rest =>
    by_cases hc : c = '\r'
    · subst hc
      obtain ⟨more, hmore⟩ := unifyNewlines_return rest
      exact .inr (.inr ⟨rest, more, rfl, hmore⟩)
    · exact .inr (.inl ⟨c, rest, hc, rfl, unifyNewlines_cons hc⟩)

/-- A row of characters that takes in neither kind of line end. -/
theorem takeWhile_unifyNewlines {p : Char → Bool} (hr : p '\r' = false) (hn : p '\n' = false)
    (cs : List Char) : (unifyNewlines cs).takeWhile p = cs.takeWhile p ∧
      (unifyNewlines cs).dropWhile p = unifyNewlines (cs.dropWhile p) := by
  induction cs with
  | nil => exact ⟨rfl, rfl⟩
  | cons c rest ih =>
    by_cases hc : c = '\r'
    · subst hc
      obtain ⟨more, hmore⟩ := unifyNewlines_return rest
      simp [hmore, hr, hn]
    · rw [unifyNewlines_cons hc]
      cases hp : p c with
      | true => simp [hp, ih]
      | false => simp [hp, unifyNewlines_cons hc]

theorem length_unifyNewlines (cs : List Char) : (unifyNewlines cs).length ≤ cs.length := by
  fun_induction unifyNewlines cs <;> simp <;> omega

end

end FlexSynth.Text
