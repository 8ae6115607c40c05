import FlexSynth.Proofs.Json.Strings
import FlexSynth.Proofs.Partial

/-!
# The characters of a string

A string is written on one line (`exists_literal`), with escapes or without. A search for its
characters between two quotes can stop where a string starts that is written with escapes. But
the second quote that it has found is then the one that closes the string (`rest_of_plain`): the
first quote in the body of a string closes it or is escaped, and as escapes only shorten a text,
an escaped quote would come too early in the string.
-/

namespace FlexSynth.Json

open Partial

/-- A hexadecimal number has nothing but digits. -/
theorem not_mem_of_hexNumber? {cs : List Char} {n : Nat} (h : hexNumber? cs = some n) {c : Char}
    (hc : hexValue? c = none) : c ∉ cs := by
  unfold hexNumber? at h
  generalize 0 = start at h
  induction cs generalizing start with
  | nil => exact List.not_mem_nil
  | cons d cs ih =>
    rw [List.foldlM_cons] at h
    obtain ⟨next, hnext, h⟩ := Option.bind_eq_some_iff.mp h
    obtain ⟨k, hk, _⟩ := Option.map_eq_some_iff.mp hnext
    rw [List.mem_cons, not_or]
    refine ⟨?_, ih _ h⟩
    rintro rfl
    rw [hc] at hk
    cases hk

section

variable {opened : Nat} {cs rest : List Char} {ns : List Nat}

/-- What is read after an item of the body of a string, with the item. -/
theorem exists_of_cons {n : Nat} (h : (do
      let (ns, rest) ← stringBody opened cs
      return (n :: ns, rest) : Except Stop (Reading (List Nat))) = .ok (ns, rest)) :
    ∃ others, stringBody opened cs = .ok (others, rest) ∧ ns = n :: others := by
  obtain ⟨⟨others, after⟩, hothers, h⟩ := bind_eq_ok_iff.mp h
  cases h
  exact ⟨others, hothers, rfl⟩

theorem exists_body (h : stringBody opened cs = .ok (ns, rest)) :
    ∃ literal, cs = literal ++ rest ∧ '\n' ∉ literal := by
  have hcons (front : List Char) {cs : List Char} (hfront : '\n' ∉ front)
      (hcs : ∃ literal, cs = literal ++ rest ∧ '\n' ∉ literal) :
      ∃ literal, front ++ cs = literal ++ rest ∧ '\n' ∉ literal := by
    obtain ⟨literal, rfl, hliteral⟩ := hcs
    exact ⟨front ++ literal, (List.append_assoc _ _ _).symm, by simp [hfront, hliteral]⟩
  fun_induction stringBody opened cs generalizing ns with
  | case1 | case3 | case5 | case6 | case8 | case9 => cases h
  | case2 more =>
    cases h
    exact ⟨['"'], rfl, by decide⟩
  | case4 a b c d e more n hn ih =>
    obtain ⟨others, hothers, rfl⟩ := exists_of_cons h
    have hdigits := not_mem_of_hexNumber? hn (c := '\n') rfl
    exact hcons ['\\', 'u', a, b, c, d] (by simpa using hdigits) (ih hothers)
  | case7 letter more _ _ c hc ih =>
    obtain ⟨others, hothers, rfl⟩ := exists_of_cons h
    have hletter : '\n' ≠ letter := by
      rintro rfl
      cases hc
    exact hcons ['\\', letter] (by simpa using hletter) (ih hothers)
  | case10 c more _ _ _ _ _ hcontrol ih =>
    obtain ⟨others, hothers, rfl⟩ := exists_of_cons h
    have hc : '\n' ≠ c := by
      rintro rfl
      exact hcontrol (by decide)
    exact hcons [c] (by simpa using hc) (ih hothers)

/-- A string stands on one line. -/
theorem exists_literal {text : String} (h : stringAfterQuote cs = .ok (text, rest)) :
    ∃ literal, cs = literal ++ rest ∧ '\n' ∉ literal := by
  obtain ⟨⟨ns, rest'⟩, hbody, h⟩ := bind_eq_ok_iff.mp h
  cases h
  exact exists_body hbody

end

/-! ### Plain strings -/

/-- A text that has been cut at its first quote, and a beginning of it without a quote. -/
theorem exists_cut (front : List Char) {cs before after : List Char} (hfront : '"' ∉ front)
    (h : front ++ cs = before ++ '"' :: after) :
    ∃ before', before = front ++ before' ∧ cs = before' ++ '"' :: after := by
  rcases List.append_eq_append_iff.mp h with ⟨before', rfl, hcs⟩ | ⟨more, rfl, hmore⟩
  · exact ⟨before', rfl, hcs⟩
  · cases more with
    | nil => exact ⟨[], by simp, hmore.symm⟩
    | cons c more =>
      cases hmore
      simp at hfront

/-- What the body of a string gives, cut before a quote: either the quote closes the string, which
has no more units than there are characters before the quote, or a quote comes among so many of
its units. -/
def ClosesAt (before after : List Char) (ns : List Nat) (rest : List Char) : Prop :=
  rest = after ∧ ns.length ≤ before.length ∨ '"'.toNat ∈ ns.take before.length

theorem ClosesAt.cons {before after rest front : List Char} {n : Nat} {ns : List Nat}
    (hfront : front ≠ []) (h : ClosesAt before after ns rest) :
    ClosesAt (front ++ before) after (n :: ns) rest := by
  have hlength := List.length_pos_iff.mpr hfront
  unfold ClosesAt
  rw [List.length_append]
  rcases h with ⟨hrest, hle⟩ | hmem
  · exact .inl ⟨hrest, by rw [List.length_cons]; omega⟩
  · obtain ⟨k, hk⟩ := Nat.exists_eq_add_of_lt hlength
    have htake : before.length ≤ k + before.length := Nat.le_add_left _ _
    rw [show front.length + before.length = (k + before.length) + 1 by omega, List.take_succ_cons]
    exact .inr (List.mem_cons_of_mem _ ((List.take_subset_take_left ns htake) hmem))

theorem closesAt_of_stringBody {opened : Nat} {cs rest before after : List Char} {ns : List Nat}
    (h : stringBody opened cs = .ok (ns, rest)) (hcs : cs = before ++ '"' :: after)
    (hbefore : '"' ∉ before) : ClosesAt before after ns rest := by
  fun_induction stringBody opened cs generalizing ns before with
  | case1 | case3 | case5 | case6 | case8 | case9 => cases h
  | case2 more =>
    cases h
    cases before with
    | nil =>
      cases hcs
      exact .inl ⟨rfl, Nat.le_refl _⟩
    | cons c before =>
      cases hcs
      simp at hbefore
  | case4 a b c d e more n hn ih =>
    obtain ⟨others, hothers, rfl⟩ := exists_of_cons h
    have hdigits := not_mem_of_hexNumber? hn (c := '"') rfl
    obtain ⟨before', rfl, hcut⟩ := exists_cut ['\\', 'u', a, b, c, d]
      (by simpa using hdigits) hcs
    exact .cons (List.cons_ne_nil _ _)
      (ih hothers hcut fun hmem => hbefore (List.mem_append_right _ hmem))
  | case7 letter more _ _ c hc ih =>
    obtain ⟨others, hothers, rfl⟩ := exists_of_cons h
    by_cases hletter : '"' = letter
    · subst hletter
      cases hc
      cases before with
      | nil => cases hcs
      | cons first before => exact .inr List.mem_cons_self
    · obtain ⟨before', rfl, hcut⟩ := exists_cut ['\\', letter]
        (by simpa using hletter) hcs
      exact .cons (List.cons_ne_nil _ _)
        (ih hothers hcut fun hmem => hbefore (List.mem_append_right _ hmem))
  | case10 c more hquote _ _ _ _ _ ih =>
    obtain ⟨others, hothers, rfl⟩ := exists_of_cons h
    obtain ⟨before', rfl, hcut⟩ := exists_cut [c]
      (by simpa using Ne.symm hquote) hcs
    exact .cons (List.cons_ne_nil _ _)
      (ih hothers hcut fun hmem => hbefore (List.mem_append_right _ hmem))

theorem length_joinSurrogates (ns : List Nat) : (joinSurrogates ns).length ≤ ns.length := by
  fun_induction joinSurrogates ns with
  | case1 high low rest _ ih =>
    rw [List.length_cons, List.length_cons, List.length_cons]
    omega
  | case2 high low rest _ ih => exact Nat.succ_le_succ ih
  | case3 => exact Nat.le_refl _
  | case4 => exact Nat.le_refl _

/-- A quote is not half of another character. -/
theorem quote_mem_joinSurrogates {ns : List Nat} {k : Nat} (h : '"'.toNat ∈ ns.take k) :
    '"' ∈ (joinSurrogates ns).take k := by
  fun_induction joinSurrogates ns generalizing k with
  | case1 high low rest hpair ih =>
    have hquote : '"'.toNat = 34 := rfl
    rw [hquote] at h
    match k with
    | 0 => cases h
    | 1 =>
      rw [List.take_succ_cons, List.take_zero, List.mem_singleton] at h
      omega
    | k + 2 =>
      simp only [List.take_succ_cons, List.mem_cons] at h
      rcases h with h | h | h
      · omega
      · omega
      · exact List.mem_cons_of_mem _ (List.take_subset_take_left _ (Nat.le_succ k) (ih h))
  | case2 high low rest _ ih =>
    cases k with
    | zero => cases h
    | succ k =>
      rcases List.mem_cons.mp h with rfl | h
      · exact List.mem_cons_self
      · exact List.mem_cons_of_mem _ (ih h)
  | case3 n =>
    cases k with
    | zero => cases h
    | succ k =>
      rw [List.take_succ_cons, List.take_nil, List.mem_singleton] at h
      subst h
      exact List.mem_cons_self
  | case4 => simp at h

/-- Where the quoted text stands and is read as the text, the string ends with its last quote. -/
theorem rest_of_plain {text : String} {more rest : List Char}
    (h : stringAfterQuote (text.toList ++ '"' :: more) = .ok (text, rest)) : rest = more := by
  obtain ⟨⟨ns, rest'⟩, hbody, h⟩ := bind_eq_ok_iff.mp h
  cases h
  rw [String.toList_ofList] at hbody
  have hmem : '"' ∈ joinSurrogates ns ++ '"' :: more := by simp
  obtain ⟨before, after, hcut, hbefore⟩ := List.eq_append_cons_of_mem hmem
  have hwhole : before <+: joinSurrogates ns ++ '"' :: more := hcut ▸ List.prefix_append _ _
  have hprefix {front : List Char} (hfront : front <+: joinSurrogates ns)
      (hle : front.length ≤ before.length) : front <+: before :=
    List.prefix_of_prefix_length_le (hfront.trans (List.prefix_append _ _)) hwhole hle
  rcases closesAt_of_stringBody hbody hcut hbefore with ⟨rfl, hle⟩ | hmem
  · obtain ⟨tail, rfl⟩ := hprefix List.prefix_rfl (Nat.le_trans (length_joinSurrogates ns) hle)
    rw [List.append_assoc] at hcut
    have htail := List.append_cancel_left hcut
    cases tail with
    | nil => exact (List.cons.inj htail).2.symm
    | cons c tail =>
      cases htail
      simp at hbefore
  · have hfront := hprefix (List.take_prefix _ _) (List.length_take_le _ _)
    exact absurd (hfront.subset (quote_mem_joinSurrogates hmem)) hbefore

end FlexSynth.Json
