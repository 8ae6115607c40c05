import FlexSynth.Files.Tree
import FlexSynth.Proofs.Partial

/-!
# Files after a write

A write changes the tree at one location (`node?_of_write`), where the file then holds the
text (`read_of_write`). Paths lead to the same locations as before
(`locate_eq_ok_iff_of_write`), because what is written is no directory, neither before nor
after, and a path leads through directories only. So a path that leads elsewhere reads what
it read before (`read_of_write_of_ne`). Different paths may lead to one location.
-/

namespace FlexSynth.FileTree

open Partial

/-! ## Nodes -/

theorem lookup_entry (l other : Location) (n : FileNode) (rest : List (Location × FileNode)) :
    ((l, n) :: rest).lookup other = if other = l then some n else rest.lookup other := by
  rw [List.lookup_cons]
  by_cases h : other = l
  · rw [if_pos h, beq_iff_eq.mpr h]
  · rw [if_neg h, beq_eq_false_iff_ne.mpr h]

theorem lookup_putNode (location other : Location) (node : FileNode)
    (nodes : List (Location × FileNode)) :
    (putNode location node nodes).lookup other =
      if other = location then some node else nodes.lookup other := by
  induction nodes with
  | nil => rw [putNode, lookup_entry]
  | cons entry rest ih =>
    obtain ⟨l, n⟩ := entry
    rw [putNode]
    split
    · next hl =>
      rw [lookup_entry, lookup_entry, hl]
      split <;> rfl
    · next hl =>
      rw [lookup_entry, lookup_entry, ih]
      by_cases h : other = l
      · rw [if_pos h, if_pos h, if_neg (h ▸ hl)]
      · rw [if_neg h, if_neg h]

/-- A path can be written to: it leads to a location where there is no directory. -/
def Accepts (t : FileTree) (p : Path) : Prop :=
  ∃ location, t.locate p = .ok location ∧ ∀ time, t.node? location ≠ some (.directory time)

instance (t : FileTree) (p : Path) : Decidable (t.Accepts p) :=
  match hlocate : t.locate p with
  | .error _ => isFalse (by simp [Accepts, hlocate])
  | .ok location =>
    match hnode : t.node? location with
    | some (.directory _) => isFalse (by simp [Accepts, hlocate, hnode])
    | some (.file ..) => isTrue (by simp [Accepts, hlocate, hnode])
    | none => isTrue (by simp [Accepts, hlocate, hnode])

variable {t t' : FileTree} {p q : Path} {text : String} {location other : Location}

/-- A write puts a file where there is no directory. -/
theorem write_eq_ok_iff : t.write p text = .ok t' ↔
    ∃ location, t.locate p = .ok location ∧
      (∀ time, t.node? location ≠ some (.directory time)) ∧
      t' = { t with nodes := putNode location (.file (Text.encode text) (t.clock + 1)) t.nodes,
                    clock := t.clock + 1 } := by
  unfold write
  cases hlocate : t.locate p with
  | error fault => simp
  | ok location =>
    cases hnode : t.node? location with
    | none => simp [hnode, eq_comm]
    | some node => cases node <;> simp [hnode, eq_comm]

theorem exists_location_of_write (h : t.write p text = .ok t') :
    ∃ location, t.locate p = .ok location ∧
      (∀ time, t.node? location ≠ some (.directory time)) ∧
      t' = { t with nodes := putNode location (.file (Text.encode text) (t.clock + 1)) t.nodes,
                    clock := t.clock + 1 } :=
  write_eq_ok_iff.mp h

theorem accepts_of_write (h : t.write p text = .ok t') : t.Accepts p := by
  obtain ⟨location, hp, hnode, _⟩ := exists_location_of_write h
  exact ⟨location, hp, hnode⟩

theorem not_accepts_of_write {e : FileError} (h : t.write p text = .error e) : ¬t.Accepts p := by
  rintro ⟨location, hp, hnode⟩
  rw [write_eq_ok_iff.mpr ⟨location, hp, hnode, rfl⟩] at h
  cases h

/-- The location is the only one at which the tree has changed. -/
theorem node?_of_write (h : t.write p text = .ok t') (hp : t.locate p = .ok location)
    (other : Location) : t'.node? other =
      if other = location then some (.file (Text.encode text) (t.clock + 1))
      else t.node? other := by
  obtain ⟨location', hp', hnode, rfl⟩ := exists_location_of_write h
  rw [hp] at hp'
  cases hp'
  have hoff : ¬location.isPrefixOf t.current = true := by
    intro habove
    exact hnode 1 (by rw [node?, if_pos habove])
  unfold node?
  rw [lookup_putNode]
  by_cases hsame : other = location
  · rw [if_pos hsame, if_pos hsame, hsame, if_neg hoff]
  · rw [if_neg hsame, if_neg hsame]

/-! ## Paths -/

theorem follow_eq_ok_iff_of_write (h : t.write p text = .ok t') (here : Location)
    (parts : List String) :
    t'.follow here parts = .ok other ↔ t.follow here parts = .ok other := by
  obtain ⟨location, hp, hnode, _⟩ := exists_location_of_write h
  induction parts generalizing here with
  | nil => rfl
  | cons part rest ih =>
    rw [follow, follow, node?_of_write h hp]
    by_cases hsame : here = location
    · -- Neither before nor after the write does a path lead on from there.
      rw [if_pos hsame, hsame]
      cases hold : t.node? location with
      | none => simp
      | some node =>
        cases node with
        | directory time => exact absurd hold (hnode time)
        | file octets time => rfl
    · rw [if_neg hsame]
      cases t.node? here with
      | none => rfl
      | some node =>
        cases node with
        | file octets time => rfl
        | directory time =>
          dsimp only
          split
          · rfl
          · split
            · exact ih _
            · exact ih _

/-- A path leads to the same location as before. -/
theorem locate_eq_ok_iff_of_write (h : t.write p text = .ok t') :
    t'.locate q = .ok other ↔ t.locate q = .ok other := by
  have hcurrent : t'.startOf q = t.startOf q := by
    obtain ⟨location, _, _, rfl⟩ := exists_location_of_write h
    rfl
  unfold locate
  split
  · rfl
  · split
    · rfl
    · rw [hcurrent]
      exact follow_eq_ok_iff_of_write h _ _

/-- The same paths can be written to as before. -/
theorem accepts_iff_of_write (h : t.write p text = .ok t') : t'.Accepts q ↔ t.Accepts q := by
  obtain ⟨location, hp, hnode, _⟩ := exists_location_of_write h
  unfold Accepts
  refine exists_congr fun other => and_congr (locate_eq_ok_iff_of_write h) ?_
  rw [node?_of_write h hp]
  by_cases hsame : other = location
  · rw [if_pos hsame, hsame]
    exact iff_of_true (by simp) hnode
  · rw [if_neg hsame]

/-! ## Reading -/

theorem find_of_locate (hp : t.locate p = .ok location) :
    t.find p = match t.node? location with
      | some node => .ok node
      | none => .error .notFound := by
  unfold find
  rw [hp]
  rfl

/-- A file holds what was written to it last. -/
theorem read_of_write (h : t.write p text = .ok t') : t'.read p = .ok (Text.encode text) := by
  obtain ⟨location, hp, _⟩ := exists_location_of_write h
  have hfind := find_of_locate ((locate_eq_ok_iff_of_write h).mpr hp)
  rw [node?_of_write h hp, if_pos rfl] at hfind
  unfold read
  rw [hfind]

/-- A path that leads elsewhere reads the same as before. -/
theorem read_of_write_of_ne (h : t.write p text = .ok t') (hq : t.locate q = .ok other)
    (hne : t.locate p ≠ t.locate q) : t'.read q = t.read q := by
  obtain ⟨location, hp, _⟩ := exists_location_of_write h
  have hother : other ≠ location := by
    rintro rfl
    exact hne (hp.trans hq.symm)
  have hfind := find_of_locate ((locate_eq_ok_iff_of_write h).mpr hq)
  rw [node?_of_write h hp, if_neg hother, ← find_of_locate hq] at hfind
  unfold read
  rw [hfind]

end FlexSynth.FileTree
