import FlexSynth.Proofs.Json.LineEnds
import FlexSynth.Proofs.Partial
import FlexSynth.Run
import Mathlib.Data.List.TakeWhile

/-!
# Texts that cannot be encoded

A text cannot be encoded just when the stand-in of a surrogate is in it that stands alone in its
source (`encodeError?_eq_none_iff`). Which surrogates these are is told from the source as a
whole; its escapes are resolved there as in the strings that are read from it
(`resolveEscapes_of_stringBody`).
-/

namespace FlexSynth

open Partial
open Text (isSurrogate)

namespace Json

/-- The body of a string is resolved as it is read. -/
theorem resolveEscapes_of_stringBody {opened : Nat} {cs rest : List Char} {ns : List Nat}
    (h : stringBody opened cs = .ok (ns, rest)) :
    resolveEscapes cs = ns ++ resolveEscapes ('"' :: rest) := by
  fun_induction stringBody opened cs generalizing ns with
  | case1 | case3 => cases h
  | case2 rest' =>
    cases h
    rfl
  | case4 a b c d e more n hn ih =>
    obtain ⟨⟨others, rest'⟩, hbody, h⟩ := bind_eq_ok_iff.mp h
    cases h
    rw [resolveEscapes, hn, ih hbody]
    rfl
  | case5 | case6 | case8 | case9 => cases h
  | case7 letter more hnot hshort c hc ih =>
    obtain ⟨⟨others, rest'⟩, hbody, h⟩ := bind_eq_ok_iff.mp h
    cases h
    have hu : letter ≠ 'u' := by
      rintro rfl
      cases hc
    rw [resolveEscapes, hc, ih hbody]
    · rfl
    · exact fun _ _ _ _ _ hletter => absurd hletter hu
  | case10 c more _ hend _ _ hescape _ ih =>
    obtain ⟨⟨others, rest'⟩, hbody, h⟩ := bind_eq_ok_iff.mp h
    cases h
    have hc : c ≠ '\\' := ne_backslash hend hescape
    rw [resolveEscapes, ih hbody]
    · rfl
    · exact fun _ _ _ _ _ hslash _ => hc hslash
    · exact fun _ _ hslash _ => hc hslash

/-- No two surrogates have one stand-in. -/
theorem standIn_inj {m n : Nat} (hm : isSurrogate m = true) (hn : isSurrogate n = true)
    (h : standIn m = standIn n) : m = n := by
  have hchar {k : Nat} (hk : isSurrogate k = true) : (standIn k).toNat = 0x102000 + k := by
    obtain ⟨hlow, hhigh⟩ : 0xd800 ≤ k ∧ k < 0xe000 := by simpa [isSurrogate] using hk
    have hnone : ¬k.isValidChar := by
      unfold Nat.isValidChar
      omega
    have hvalid : (0x102000 + k).isValidChar := .inr ⟨by omega, by omega⟩
    rw [standIn, if_neg hnone, Char.ofNat, dif_pos hvalid]
    rfl
  have hcode := congrArg Char.toNat h
  rw [hchar hm, hchar hn] at hcode
  omega

end Json

namespace Text

end Text

end FlexSynth
