import FlexSynth.Proofs.Lines.Rules
import FlexSynth.Proofs.Scan.BlockComment
import FlexSynth.Proofs.Text.Quoted
import Mathlib.Data.List.Chain

/-!
# Notes stay comments

What the line of a rule has after its pattern is C. `readC?` reads it as a compiler does: a slash
and a star open a comment, which the next star and slash close, wherever they stand; two slashes
open one that takes the rest of the line; and neither means that inside of a literal.

The note of a comment rule holds delimiters, which may be any texts. It is one comment at the end
of its line all the same, and nothing of it is code (`notes_stay_comments`). A marker is two
characters side by side, so all that matters is which characters are (`Unmarked`). An escape keeps
its character apart from both neighbours, a delimiter stands between quotes, and a note between
blanks. So a note has a marker only where a delimiter has one, and then there is no note.
-/

namespace FlexSynth

open Flex

/-! ## Comments in C -/

/-- Where the reader of a line of C is. A comment comes with its text so far. -/
inductive CPlace where
  | code
  | literal (quote : Char)
  | comment (seen : List Char)
  | lineComment (seen : List Char)
  deriving DecidableEq, Repr

/-- A line of C, with its comments set apart. -/
structure CLine where
  code : List Char
  comments : List (List Char)
  deriving DecidableEq, Repr

namespace CLine

def append (l m : CLine) : CLine :=
  ⟨l.code ++ m.code, l.comments ++ m.comments⟩

def ofCode (code : List Char) : CLine :=
  ⟨code, []⟩

def ofComment (text : List Char) : CLine :=
  ⟨[], [text]⟩

end CLine

/-- Reads a line of C to its end, which must be neither in a literal nor in a comment that a star
and a slash have to close. -/
def readC? : CPlace → List Char → Option CLine
  | .code, '/' :: '*' :: rest => readC? (.comment []) rest
  | .code, '/' :: '/' :: rest => readC? (.lineComment []) rest
  | .code, c :: rest =>
    (readC? (if c = '"' ∨ c = '\'' then .literal c else .code) rest).map (CLine.ofCode [c]).append
  | .code, [] => some ⟨[], []⟩
  | .literal quote, '\\' :: c :: rest =>
    (readC? (.literal quote) rest).map (CLine.ofCode ['\\', c]).append
  | .literal quote, c :: rest =>
    (readC? (if c = quote then .code else .literal quote) rest).map (CLine.ofCode [c]).append
  | .literal _, [] => none
  | .comment seen, '*' :: '/' :: rest => (readC? .code rest).map (CLine.ofComment seen).append
  | .comment seen, c :: rest => readC? (.comment (seen ++ [c])) rest
  | .comment _, [] => none
  | .lineComment seen, c :: rest => readC? (.lineComment (seen ++ [c])) rest
  | .lineComment seen, [] => some (.ofComment seen)

example : readC? .code "x = \"/*\\\"\"; /* a / * \"/* **/ f(); // */".toList =
    some ⟨"x = \"/*\\\"\";  f(); ".toList, [" a / * \"/* *".toList, " */".toList]⟩ := by
  decide

/-- The text is read as this, whatever follows it. -/
def ReadsAs (text : List Char) (l : CLine) : Prop :=
  ∀ rest, readC? .code (text ++ rest) = (readC? .code rest).map l.append

section

variable {text more : List Char} {l m : CLine}

theorem ReadsAs.append (h : ReadsAs text l) (hmore : ReadsAs more m) :
    ReadsAs (text ++ more) (l.append m) := by
  intro rest
  rw [List.append_assoc, h, hmore, Option.map_map]
  congr 1
  funext n
  simp [CLine.append]

theorem ReadsAs.readC? (h : ReadsAs text l) : readC? .code text = some l := by
  have hread := h []
  rw [List.append_nil] at hread
  rw [hread]
  simp [FlexSynth.readC?, CLine.append]

/-- Code without slashes and quotes. -/
theorem readsAs_code (h : ∀ c ∈ text, c ≠ '/' ∧ c ≠ '"' ∧ c ≠ '\'') :
    ReadsAs text (.ofCode text) := by
  induction text with
  | nil => exact fun rest => Option.map_id'.symm
  | cons c text ih =>
    obtain ⟨⟨hslash, hdouble, hsingle⟩, htext⟩ := List.forall_mem_cons.mp h
    have hc : ReadsAs [c] (.ofCode [c]) := by
      intro rest
      rw [List.singleton_append, readC?, if_neg (not_or.mpr ⟨hdouble, hsingle⟩)]
      · exact fun _ hc _ => hslash hc
      · exact fun _ hc _ => hslash hc
    exact hc.append (ih htext)

/-- A comment is closed by the first star and slash. -/
theorem readC?_comment (h : ¬['*', '/'] <:+: text) (seen rest : List Char) :
    readC? (.comment seen) (text ++ '*' :: '/' :: rest) =
      (readC? .code rest).map (CLine.ofComment (seen ++ text)).append := by
  induction text generalizing seen with
  | nil => rw [List.nil_append, List.append_nil, readC?]
  | cons c text ih =>
    have htext : ¬['*', '/'] <:+: text := fun hmem => h (List.infix_cons hmem)
    rw [List.cons_append, readC?, ih htext, List.append_assoc, List.singleton_append]
    -- A star and a slash side by side would close the comment here.
    rintro after rfl hafter
    cases text with
    | nil => cases hafter
    | cons d text =>
      obtain ⟨rfl, _⟩ := List.cons.inj hafter
      exact h (List.prefix_append ['*', '/'] text).isInfix

theorem readsAs_comment (h : ¬['*', '/'] <:+: text) :
    ReadsAs ('/' :: '*' :: (text ++ ['*', '/'])) (.ofComment text) := by
  intro rest
  rw [List.cons_append, List.cons_append, List.append_assoc, readC?]
  exact readC?_comment h [] rest

end

/-! ## Markers -/

/-- A C comment is opened or closed somewhere in the text. -/
def Marked (text : List Char) : Prop :=
  ['/', '*'] <:+: text ∨ ['*', '/'] <:+: text

/-- The two characters, side by side, neither open nor close a comment. -/
def Apart (a b : Char) : Prop :=
  ¬(a = '/' ∧ b = '*') ∧ ¬(a = '*' ∧ b = '/')

/-- No comment is opened or closed in the text. -/
def Unmarked (text : List Char) : Prop :=
  text.IsChain Apart

/-- A character of which no marker is made. -/
def Isolated (c : Char) : Prop :=
  c ≠ '/' ∧ c ≠ '*'

instance : DecidablePred Isolated := fun c =>
  inferInstanceAs (Decidable (c ≠ '/' ∧ c ≠ '*'))

section

variable {text more : List Char} {a b c : Char}

theorem unmarked_iff : Unmarked text ↔ ¬Marked text := by
  unfold Unmarked Marked
  rw [List.isChain_iff_forall_rel_of_append_cons_cons, not_or]
  constructor
  · intro h
    constructor
    · rintro ⟨before, after, rfl⟩
      exact (@h '/' '*' before after (by simp)).1 ⟨rfl, rfl⟩
    · rintro ⟨before, after, rfl⟩
      exact (@h '*' '/' before after (by simp)).2 ⟨rfl, rfl⟩
  · rintro ⟨hopen, hclose⟩ a b before after rfl
    constructor
    · rintro ⟨rfl, rfl⟩
      exact hopen ⟨before, after, by simp⟩
    · rintro ⟨rfl, rfl⟩
      exact hclose ⟨before, after, by simp⟩

theorem hasCommentMarker_iff : Text.hasCommentMarker text = true ↔ Marked text := by
  unfold Marked
  fun_induction Text.hasCommentMarker text with
  | case1 rest => exact iff_of_true rfl (.inl (List.prefix_append ['/', '*'] rest).isInfix)
  | case2 rest => exact iff_of_true rfl (.inr (List.prefix_append ['*', '/'] rest).isInfix)
  | case3 c rest hopen hclose ih =>
    have hfirst {x y : Char} (h : ∀ more, c = x → rest = y :: more → False) :
        [x, y] <:+: c :: rest ↔ [x, y] <:+: rest := by
      rw [List.infix_cons_iff, or_iff_right]
      rintro ⟨more, hmore⟩
      obtain ⟨rfl, rfl⟩ := List.cons.inj hmore
      exact h more rfl rfl
    rw [hfirst hopen, hfirst hclose, ih]
  | case4 => simp

theorem Isolated.apart_left (h : Isolated a) : Apart a b :=
  ⟨fun hab => h.1 hab.1, fun hab => h.2 hab.1⟩

theorem Isolated.apart_right (h : Isolated b) : Apart a b :=
  ⟨fun hab => h.2 hab.2, fun hab => h.1 hab.2⟩

theorem unmarked_append_cons (hc : Isolated c) :
    Unmarked (text ++ c :: more) ↔ Unmarked text ∧ Unmarked more := by
  unfold Unmarked
  rw [List.isChain_append, List.isChain_cons]
  constructor
  · exact fun ⟨htext, ⟨_, hmore⟩, _⟩ => ⟨htext, hmore⟩
  · rintro ⟨htext, hmore⟩
    refine ⟨htext, ⟨fun _ _ => hc.apart_left, hmore⟩, ?_⟩
    rintro x _ _ ⟨⟩
    exact hc.apart_right

theorem Unmarked.cons (hc : Isolated c) (h : Unmarked text) : Unmarked (c :: text) :=
  List.isChain_cons.mpr ⟨fun _ _ => hc.apart_left, h⟩

theorem unmarked_isolated_append (htext : ∀ c ∈ text, Isolated c) (hmore : Unmarked more) :
    Unmarked (text ++ more) := by
  induction text with
  | nil => exact hmore
  | cons c text ih =>
    obtain ⟨hc, htext⟩ := List.forall_mem_cons.mp htext
    exact (ih htext).cons hc

/-! ### In literals -/

/-- A character is written as itself, or as an escape of which no marker is made. -/
theorem escape_isolated (c : Char) : Text.escape '"' c = [c] ∨
    ∃ code, Text.escape '"' c = '\\' :: code ∧ ∀ d ∈ code, Isolated d := by
  have hcode : Text.escapeCode.all (Isolated ·) = true := by decide
  rcases Text.escape_code '"' c with ⟨hself, _⟩ | ⟨code, hescape, hmem⟩
  · exact .inl hself
  · refine .inr ⟨code, hescape, fun d hd => ?_⟩
    rcases hmem d hd with rfl | hd
    · decide
    · exact of_decide_eq_true (List.all_eq_true.mp hcode d hd)

/-- Escaping makes no marker, also with the character before. -/
theorem unmarked_cons_escaped (h : Unmarked (a :: text)) :
    Unmarked (a :: text.flatMap (Text.escape '"')) := by
  induction text generalizing a with
  | nil => exact h
  | cons c text ih =>
    obtain ⟨hac, hrest⟩ := List.isChain_cons_cons.mp h
    rw [List.flatMap_cons]
    rcases escape_isolated c with hself | ⟨code, hcode, hisolated⟩
    · rw [hself]
      exact List.isChain_cons_cons.mpr ⟨hac, ih hrest⟩
    · rw [hcode]
      have hslash : Isolated '\\' := by decide
      refine List.isChain_cons_cons.mpr ⟨hslash.apart_right, ?_⟩
      exact unmarked_isolated_append (List.forall_mem_cons.mpr ⟨hslash, hisolated⟩) (ih hrest).tail

theorem unmarked_quoted_append (h : Unmarked text) (hmore : Unmarked more) :
    Unmarked (Text.quoted '"' text ++ more) := by
  have hquote : Isolated '"' := by decide
  have htext : Text.quoted '"' text ++ more =
      ('"' :: text.flatMap (Text.escape '"')) ++ '"' :: more := by
    simp [Text.quoted]
  rw [htext, unmarked_append_cons hquote]
  exact ⟨unmarked_cons_escaped (h.cons hquote), hmore⟩

end

/-! ## Notes -/

section

variable {label note : String} {delimiters : List String}

theorem delimiterNote_eq_none_iff :
    delimiterNote label delimiters = none ↔ ∃ d ∈ delimiters, Marked d.toList := by
  unfold delimiterNote
  simp only [ite_eq_left_iff, reduceCtorEq, imp_false, not_not, List.any_eq_true,
    hasCommentMarker_iff]

/-- Between two delimiters there are quotes and a blank. -/
theorem unmarked_delimiters (h : ∀ d ∈ delimiters, Unmarked d.toList) :
    Unmarked (String.join (delimiters.map (" " ++ Text.cString ·))).toList := by
  induction delimiters with
  | nil => exact List.isChain_nil
  | cons d delimiters ih =>
    obtain ⟨hd, hrest⟩ := List.forall_mem_cons.mp h
    rw [List.map_cons, String.join_cons, String.toList_append, String.toList_append, toList_cString]
    exact (unmarked_quoted_append hd (ih hrest)).cons (by decide)

/-- A note has no marker. -/
theorem unmarked_delimiterNote (hlabel : ∀ c ∈ label.toList, Isolated c)
    (h : note ∈ delimiterNote label delimiters) : Unmarked note.toList := by
  have hdelimiters : ∀ d ∈ delimiters, Unmarked d.toList := by
    intro d hd
    rw [unmarked_iff]
    intro hmarked
    rw [delimiterNote_eq_none_iff.mpr ⟨d, hd, hmarked⟩] at h
    cases h
  unfold delimiterNote at h
  split at h
  · cases h
  · cases h
    rw [String.join_cons, String.toList_append]
    exact unmarked_isolated_append hlabel (unmarked_delimiters hdelimiters)

end

/-- How a note is read: as one comment, after a blank. -/
def CLine.ofNote : Option String → CLine
  | none => ⟨[], []⟩
  | some note => ⟨[' '], [(" scangen: " ++ note ++ " ").toList]⟩

theorem readsAs_noteComment {note : Option String}
    (h : ∀ n ∈ note, n ≠ "" ∧ Unmarked n.toList) :
    ReadsAs (noteComment note).toList (.ofNote note) := by
  cases note with
  | none => exact fun rest => Option.map_id'.symm
  | some note =>
    obtain ⟨hne, hnote⟩ := h note rfl
    have hblank : Isolated ' ' := by decide
    have htext : Unmarked (" scangen: " ++ note ++ " ").toList := by
      rw [String.toList_append, String.toList_append]
      refine (unmarked_append_cons hblank).mpr ⟨?_, List.isChain_nil⟩
      exact unmarked_isolated_append (by simp [Isolated]) hnote
    have hcomment : (noteComment (some note)).toList =
        [' '] ++ '/' :: '*' :: ((" scangen: " ++ note ++ " ").toList ++ ['*', '/']) := by
      rw [noteComment_some hne]
      simp
    rw [hcomment]
    exact (readsAs_code (by simp)).append
      (readsAs_comment fun hclose => unmarked_iff.mp htext (.inr hclose))

/-- What the line of the rule has after its pattern is the actions of the rule, and after them the
note as one comment. The note could neither end this comment nor the line. -/
structure Rule.KeepsNote (r : Rule) : Prop where
  note : ∀ note ∈ r.note, ¬Marked note.toList ∧ '\n' ∉ note.toList
  line : ∃ line text actions own, r.render = .ok line ∧
    (∀ dialect, readLine? dialect line.toList = some ⟨r.states, r.pattern, text⟩) ∧
    r.actions.mapM Action.render = .ok actions ∧
    readC? .code (Text.joinWith " " actions).toList = some own ∧
    readC? .code text.toList = some (own.append (.ofNote r.note))

theorem Rule.Legible.keepsNote {r : Rule} {own : CLine} (h : r.Legible)
    (hpattern : ∀ dialect, Sheltered dialect r.pattern)
    (hnote : ∀ note ∈ r.note, Unmarked note.toList)
    (hactions : ReadsAs (Text.joinWith " " (r.actions.map Action.text)).toList own) :
    r.KeepsNote where
  note n hn := ⟨unmarked_iff.mp (hnote n hn), (h.note n hn).2⟩
  line := by
    refine ⟨r.line, r.actionText, _, own, h.render,
      fun dialect => h.readLine?_line (hpattern dialect), h.mapM_render, hactions.readC?, ?_⟩
    have hcomment := readsAs_noteComment fun n hn => ⟨(h.note n hn).1, hnote n hn⟩
    rw [Rule.actionText, String.toList_append]
    exact (hactions.append hcomment).readC?

/-! ## The rules of comments -/

theorem readsAs_skip : ReadsAs (Action.skip "skip").text.toList ⟨[';'], [" skip ".toList]⟩ := by
  have hcomment : ReadsAs ('/' :: '*' :: (" skip ".toList ++ ['*', '/']))
      (.ofComment " skip ".toList) := readsAs_comment (by decide)
  have hsemicolon : ReadsAs [';'] (.ofCode [';']) := readsAs_code (by simp)
  have htext : (Action.skip "skip").text.toList =
      '/' :: '*' :: (" skip ".toList ++ ['*', '/']) ++ [';'] := by decide +kernel
  rw [htext]
  exact hcomment.append hsemicolon

theorem readsAs_begin {state : String} (h : isWord state = true) :
    ReadsAs (Action.begin state).text.toList (.ofCode (Action.begin state).text.toList) := by
  refine readsAs_code fun c hc => ?_
  rw [Action.text, String.toList_ofList, Action.statement_begin, List.mem_append, List.mem_append,
    List.mem_singleton] at hc
  have hfixed : ∀ c ∈ "BEGIN ".toList, c ≠ '/' ∧ c ≠ '"' ∧ c ≠ '\'' := by simp
  rcases hc with (hc | hc) | rfl
  · exact hfixed c hc
  · have hother {d : Char} (hd : isWordChar d = false) : c ≠ d := by
      rintro rfl
      exact not_mem_of_isWord h hd hc
    exact ⟨hother (by decide), hother (by decide), hother (by decide)⟩
  · decide

theorem keepsNote_of_mem_commentRules {forms : CommentForms} {r : Rule} (hr : r ∈ forms.rules) :
    r.KeepsNote := by
  have hpattern (dialect : Dialect) : Sheltered dialect r.pattern :=
    sheltered_of_mem_commentRules hr
  rcases mem_commentRules.mp hr with ⟨delimiter, _, rfl⟩ | ⟨form, n, _, hr⟩
  · exact (legible_lineCommentRule delimiter).keepsNote hpattern
      (fun _ => unmarked_delimiterNote (by simp [Isolated])) readsAs_skip
  · have hlegible := legible_blockCommentRules hr
    rcases mem_blockCommentRules.mp hr with rfl | rfl | rfl | rfl
    · exact hlegible.keepsNote hpattern (fun _ => unmarked_delimiterNote (by simp [Isolated]))
        (readsAs_begin (isWord_commentState n))
    · exact hlegible.keepsNote hpattern (fun _ h => nomatch h) (readsAs_begin (by decide))
    · exact hlegible.keepsNote hpattern (fun _ h => nomatch h) readsAs_skip
    · exact hlegible.keepsNote hpattern (fun _ h => nomatch h) readsAs_skip

/-- Whatever the delimiters are, the note of a comment rule is one comment at the end of its line.
It is left out exactly when a delimiter of the form has a marker in it. -/
theorem notes_stay_comments (forms : CommentForms) :
    (∀ r ∈ forms.rules, r.KeepsNote) ∧
    (∀ delimiter ∈ forms.line, lineCommentRule delimiter ∈ forms.rules ∧
      ((lineCommentRule delimiter).note = none ↔ Marked delimiter.toList)) ∧
    ∀ form n, (form, n) ∈ forms.block.zipIdx →
      openingRule form (commentState n) ∈ forms.rules ∧
      ((openingRule form (commentState n)).note = none ↔
        Marked form.start.toList ∨ Marked form.stop.toList) := by
  refine ⟨fun r => keepsNote_of_mem_commentRules, fun delimiter hmem => ⟨?_, ?_⟩,
    fun form n hmem => ⟨?_, ?_⟩⟩
  · exact mem_commentRules.mpr (.inl ⟨delimiter, hmem, rfl⟩)
  · exact delimiterNote_eq_none_iff.trans (by simp)
  · exact mem_commentRules.mpr (.inr ⟨form, n, hmem, List.mem_cons_self⟩)
  · exact delimiterNote_eq_none_iff.trans (by simp)

/-- Delimiters that have halves of markers at their ends, and markers once they are escaped or put
side by side without care. -/
def edgyForms : CommentForms :=
  ⟨["/\n*", "*/"], [⟨"*", "/"⟩, ⟨"/*", "\""⟩]⟩

theorem notes_stay_comments_edgy :
    (lineCommentRule "/\n*").KeepsNote ∧ (openingRule ⟨"*", "/"⟩ "COMMENT").KeepsNote ∧
      (lineCommentRule "*/").note = none ∧ (openingRule ⟨"/*", "\""⟩ "COMMENT1").note = none := by
  obtain ⟨hkeeps, hline, hblock⟩ := notes_stay_comments edgyForms
  have hmarked : Marked "*/".toList := .inr List.infix_rfl
  have hopening : Marked "/*".toList := .inl List.infix_rfl
  refine ⟨hkeeps _ (hline _ (by decide)).1, hkeeps _ (hblock ⟨"*", "/"⟩ 0 (by decide)).1,
    (hline _ (by decide)).2.mpr hmarked, (hblock ⟨"/*", "\""⟩ 1 (by decide)).2.mpr (.inl hopening)⟩

end FlexSynth
