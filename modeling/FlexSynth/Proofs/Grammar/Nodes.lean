import FlexSynth.Proofs.Grammar.Schema
import FlexSynth.Proofs.Regex.Meaning

/-!
# Expressions as nodes of a document

`Regex.toNode` writes an expression as a node of a grammar file, with two operands for every
sequence and alternation, and the node is read as the expression again. A node may have more
operands than that, or fewer. `NodeMeans` gives the words of a node without the expression that
it is read as: those of all its operands one after the other, or of any of its operands. They
are the words of that expression (`node_means_iff`), though it nests its operands to the right.
-/

namespace FlexSynth

open Flex Partial
open scoped Computability

/-- The node of an expression. -/
def Regex.toNode : Regex → Json
  | .char text => .array [.string "char", .string text]
  | .word text => .array [.string "seqs", .string text]
  | .oneOf chars => .array [.string "alts", .string chars]
  | .seq left right => .array [.string "seq", left.toNode, right.toNode]
  | .alt left right => .array [.string "alt", left.toNode, right.toNode]
  | .minus left right => .array [.string "minus", left.toNode, right.toNode]
  | .star body => .array [.string "star", body.toNode]
  | .plus body => .array [.string "plus", body.toNode]
  | .opt body => .array [.string "opt", body.toNode]
  | .eps => .array [.string "eps"]
  | .named .digit => .array [.string "digit"]
  | .named .letter => .array [.string "letter"]
  | .named .upper => .array [.string "upper"]
  | .named .lower => .array [.string "lower"]
  | .any => .array [.string "any"]

/-- `NodeMeans node L`: the node is well-formed, and `L` are its words. -/
inductive NodeMeans : Json → Language Char → Prop
  | eps : NodeMeans (.array [.string "eps"]) 1
  | digit : NodeMeans (.array [.string "digit"]) (singles fun c => c.isDigit = true)
  | letter : NodeMeans (.array [.string "letter"]) (singles fun c => c.isAlpha = true)
  | upper : NodeMeans (.array [.string "upper"]) (singles fun c => c.isUpper = true)
  | lower : NodeMeans (.array [.string "lower"]) (singles fun c => c.isLower = true)
  | any : NodeMeans (.array [.string "any"]) (singles fun c => c ≠ '\n')
  | char {text : String} : text.length = 1 →
      NodeMeans (.array [.string "char", .string text]) {text.toList}
  | word {text : String} : NodeMeans (.array [.string "seqs", .string text]) {text.toList}
  | oneOf {text : String} : NodeMeans (.array [.string "alts", .string text])
      (singles fun c => c ∈ text.toList)
  | star {node : Json} {L : Language Char} : NodeMeans node L →
      NodeMeans (.array [.string "star", node]) L∗
  | plus {node : Json} {L : Language Char} : NodeMeans node L →
      NodeMeans (.array [.string "plus", node]) (L * L∗)
  | opt {node : Json} {L : Language Char} : NodeMeans node L →
      NodeMeans (.array [.string "opt", node]) (1 + L)
  | minus {left right : Json} {L M : Language Char} : NodeMeans left L → NodeMeans right M →
      NodeMeans (.array [.string "minus", left, right]) (singles fun c => [c] ∈ L ∧ [c] ∉ M)
  /-- A word of every operand, one after the other; of no operand, the empty word. -/
  | seq {nodes : List Json} {Ls : List (Language Char)} : List.Forall₂ NodeMeans nodes Ls →
      NodeMeans (.array (.string "seq" :: nodes)) Ls.prod
  /-- A word of any operand. -/
  | alt {nodes : List Json} {Ls : List (Language Char)} : nodes ≠ [] →
      List.Forall₂ NodeMeans nodes Ls → NodeMeans (.array (.string "alt" :: nodes)) Ls.sum

/-! ## Nodes of expressions -/

theorem describesRegex_toNode {r : Regex} (hr : r.HasSingleChars) : DescribesRegex r.toNode r := by
  induction r with
  | char text => exact .char hr
  | word text => exact .word
  | oneOf chars => exact .oneOf
  | seq left right ihl ihr => exact .seq (.cons (ihl hr.1) (.cons (ihr hr.2) .nil))
  | alt left right ihl ihr => exact .alt (.cons (ihl hr.1) (.cons (ihr hr.2) .nil)) rfl
  | minus left right ihl ihr => exact .minus (ihl hr.1) (ihr hr.2)
  | star body ih => exact .star (ih hr)
  | plus body ih => exact .plus (ih hr)
  | opt body ih => exact .opt (ih hr)
  | eps => exact .eps
  | named cls =>
    cases cls with
    | digit => exact .digit
    | letter => exact .letter
    | upper => exact .upper
    | lower => exact .lower
  | any => exact .any

/-! ## Words of nodes -/

theorem language_sequence (parts : List Regex) :
    (Regex.sequence parts).language = (parts.map Regex.language).prod := by
  induction parts with
  | nil => rfl
  | cons first rest ih =>
    rw [List.map_cons, List.prod_cons, ← ih]
    cases rest with
    | nil => exact (mul_one _).symm
    | cons => rfl

theorem language_alternation {parts : List Regex} {r : Regex}
    (h : Regex.alternation? parts = some r) : r.language = (parts.map Regex.language).sum := by
  induction parts generalizing r with
  | nil => cases h
  | cons first rest ih =>
    rw [List.map_cons, List.sum_cons]
    cases rest with
    | nil =>
      cases h
      exact (add_zero _).symm
    | cons next more =>
      obtain ⟨others, hothers, rfl⟩ := Option.map_eq_some_iff.mp h
      rw [← ih hothers]
      rfl

mutual

theorem nodeMeans_of_describesRegex (node : Json) {r : Regex} (h : DescribesRegex node r) :
    NodeMeans node r.language := by
  cases h with
  | eps => exact .eps
  | digit => exact .digit
  | letter => exact .letter
  | upper => exact .upper
  | lower => exact .lower
  | any => exact .any
  | char hone => exact .char hone
  | word => exact .word
  | oneOf => exact .oneOf
  | star hbody => exact .star (nodeMeans_of_describesRegex _ hbody)
  | plus hbody => exact .plus (nodeMeans_of_describesRegex _ hbody)
  | opt hbody => exact .opt (nodeMeans_of_describesRegex _ hbody)
  | minus hleft hright =>
    exact .minus (nodeMeans_of_describesRegex _ hleft) (nodeMeans_of_describesRegex _ hright)
  | seq hparts =>
    rw [language_sequence]
    exact .seq (nodesMean_of_forall₂ _ hparts)
  | @alt nodes parts r hparts hr =>
    rw [language_alternation hr]
    refine .alt ?_ (nodesMean_of_forall₂ _ hparts)
    rintro rfl
    cases hparts
    cases hr

theorem nodesMean_of_forall₂ (nodes : List Json) {parts : List Regex}
    (h : List.Forall₂ DescribesRegex nodes parts) :
    List.Forall₂ NodeMeans nodes (parts.map Regex.language) := by
  cases h with
  | nil => exact .nil
  | cons hnode hrest =>
    exact .cons (nodeMeans_of_describesRegex _ hnode) (nodesMean_of_forall₂ _ hrest)

end

mutual

/-- A node that means something describes an expression of these words. -/
theorem exists_describesRegex (node : Json) {L : Language Char} (h : NodeMeans node L) :
    ∃ r, DescribesRegex node r ∧ r.language = L := by
  cases h with
  | eps => exact ⟨_, .eps, rfl⟩
  | digit => exact ⟨_, .digit, rfl⟩
  | letter => exact ⟨_, .letter, rfl⟩
  | upper => exact ⟨_, .upper, rfl⟩
  | lower => exact ⟨_, .lower, rfl⟩
  | any => exact ⟨_, .any, rfl⟩
  | char hone => exact ⟨_, .char hone, rfl⟩
  | word => exact ⟨_, .word, rfl⟩
  | oneOf => exact ⟨_, .oneOf, rfl⟩
  | star hbody =>
    obtain ⟨r, hr, rfl⟩ := exists_describesRegex _ hbody
    exact ⟨_, .star hr, rfl⟩
  | plus hbody =>
    obtain ⟨r, hr, rfl⟩ := exists_describesRegex _ hbody
    exact ⟨_, .plus hr, rfl⟩
  | opt hbody =>
    obtain ⟨r, hr, rfl⟩ := exists_describesRegex _ hbody
    exact ⟨_, .opt hr, rfl⟩
  | minus hleft hright =>
    obtain ⟨l, hl, rfl⟩ := exists_describesRegex _ hleft
    obtain ⟨r, hr, rfl⟩ := exists_describesRegex _ hright
    exact ⟨_, .minus hl hr, rfl⟩
  | seq hnodes =>
    obtain ⟨parts, hparts, rfl⟩ := exists_forall₂_describesRegex _ hnodes
    exact ⟨_, .seq hparts, language_sequence parts⟩
  | alt hne hnodes =>
    obtain ⟨parts, hparts, rfl⟩ := exists_forall₂_describesRegex _ hnodes
    have hparts_ne : parts ≠ [] := by
      rintro rfl
      exact hne (List.forall₂_nil_right_iff.mp hparts)
    obtain ⟨r, hr⟩ := exists_alternation hparts_ne
    exact ⟨r, .alt hparts hr, language_alternation hr⟩

theorem exists_forall₂_describesRegex (nodes : List Json) {Ls : List (Language Char)}
    (h : List.Forall₂ NodeMeans nodes Ls) :
    ∃ parts, List.Forall₂ DescribesRegex nodes parts ∧ parts.map Regex.language = Ls := by
  cases h with
  | nil => exact ⟨[], .nil, rfl⟩
  | cons hnode hrest =>
    obtain ⟨r, hr, rfl⟩ := exists_describesRegex _ hnode
    obtain ⟨parts, hparts, rfl⟩ := exists_forall₂_describesRegex _ hrest
    exact ⟨r :: parts, .cons hr hparts, rfl⟩

end

/-- The words of a node are those of the expression that it is read as. -/
theorem node_means_iff {place : Place} {node : Json} {r : Regex}
    (h : regexOf place node = .ok r) {L : Language Char} : NodeMeans node L ↔ L = r.language := by
  constructor
  · intro hmeans
    obtain ⟨r', hr', rfl⟩ := exists_describesRegex node hmeans
    have hread : regexOf place node = .ok r' := regexOf_eq_ok_iff.mpr hr'
    rw [h] at hread
    cases hread
    rfl
  · rintro rfl
    exact nodeMeans_of_describesRegex node (regexOf_eq_ok_iff.mp h)

/-! ## Single operands -/

/-- An operator that hands its only operand on reads it in its own place, faults included. -/
theorem regexOf_single {kind : String} {op : Operator} (hatom : atoms.lookup kind = none)
    (hop : Operator.ofKind? kind = some op) (harity : op.arity? = none)
    (happly : ∀ r, op.apply? [r] = some r) (place : Place) (node : Json) :
    regexOf place (.array [.string kind, node]) = regexOf (place.item 1) node := by
  have hoperands : regexesOf place 1 [node] = (regexOf (place.item 1) node).map ([·]) := by
    rw [regexesOf, regexesOf]
    cases regexOf (place.item 1) node <;> rfl
  generalize regexOf (place.item 1) node = read at hoperands ⊢
  unfold regexOf
  simp only [hatom, hop, harity, hoperands]
  cases read with
  | error v => rfl
  | ok r =>
    simp only [Except.map, bind, Except.bind, happly]
    rfl

/-- The node of an expression is read as the expression again; a node that is read means the
words of what it is read as, whatever the number of its operands; a sequence and an alternation
of one operand are that operand. -/
theorem nodes_read_back :
    (∀ r : Regex, r.HasSingleChars → ∀ place, regexOf place r.toNode = .ok r) ∧
    (∀ place node r, regexOf place node = .ok r → ∀ L, NodeMeans node L ↔ L = r.language) ∧
    ∀ place node,
      regexOf place (.array [.string "seq", node]) = regexOf (place.item 1) node ∧
      regexOf place (.array [.string "alt", node]) = regexOf (place.item 1) node := by
  refine ⟨fun r hr place => ?encoded, fun place node r h L => ?meant, fun place node => ?single⟩
  case encoded => exact regexOf_eq_ok_iff.mpr (describesRegex_toNode hr)
  case meant => exact node_means_iff h
  case single =>
    exact ⟨regexOf_single rfl rfl rfl (fun _ => rfl) place node,
      regexOf_single rfl rfl rfl (fun _ => rfl) place node⟩

/-- A letter, any letters or digits, and nothing, as a sequence of three operands. -/
def threeOperands : Json :=
  .array [.string "seq", .array [.string "letter"],
    .array [.string "star", .array [.string "alt", .array [.string "letter"],
      .array [.string "digit"]]],
    .array [.string "eps"]]

def twoByTwo : Regex :=
  .seq (.named .letter) (.seq (.star (.alt (.named .letter) (.named .digit))) .eps)

theorem nodes_read_back_three_operands : twoByTwo.HasSingleChars ∧
    regexOf .document twoByTwo.toNode = .ok twoByTwo ∧
    regexOf .document threeOperands = .ok twoByTwo ∧ twoByTwo.toNode ≠ threeOperands ∧
    NodeMeans threeOperands twoByTwo.language ∧
    regexOf .document (.array [.string "seq", threeOperands]) = .ok twoByTwo := by
  have hsingle : twoByTwo.HasSingleChars := by decide
  have hread (place : Place) : regexOf place threeOperands = .ok twoByTwo := rfl
  obtain ⟨hencoded, hmeant, hone⟩ := nodes_read_back
  have hother : twoByTwo.toNode ≠ threeOperands := by
    simp [twoByTwo, threeOperands, Regex.toNode]
  refine ⟨hsingle, hencoded _ hsingle _, hread _, hother, ?_, ?_⟩
  · exact (hmeant _ _ _ (hread .document) _).mpr rfl
  · exact ((hone _ _).1).trans (hread _)

end FlexSynth
