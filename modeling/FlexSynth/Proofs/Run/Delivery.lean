import FlexSynth.Proofs.Files.Write
import FlexSynth.Run

/-!
# What a run writes

`Delivered` says what stands in the files and on the standard output after writing
(`delivered_of_failure_eq_none`): the two texts, and all else as before. Writing succeeds where
the description can be encoded and every file that is asked for can be written
(`deliver_failure_iff`).

Two outputs count as distinct if their paths lead to different locations
(`RunOptions.Apart`). A path that goes up may lead to the location of another one.
-/

namespace FlexSynth

/-! ## One file -/

/-- `after` is `before` with the text written to the path, if there is one. -/
inductive Written (text : String) (before : FileTree) : Option Path → FileTree → Prop
  | nowhere : Written text before none before
  | somewhere {p : Path} {after : FileTree} : before.write p text = .ok after →
      Written text before (some p) after

namespace Written

variable {text : String} {before after : FileTree} {path : Option Path} {p q : Path}

theorem node?_eq (h : Written text before path after) {location : Location}
    (hother : ∀ p ∈ path, before.locate p ≠ .ok location) :
    after.node? location = before.node? location := by
  cases h with
  | nowhere => rfl
  | @somewhere p _ hwrite =>
    obtain ⟨l, hp, _⟩ := FileTree.exists_location_of_write hwrite
    rw [FileTree.node?_of_write hwrite hp, if_neg]
    rintro rfl
    exact hother p rfl hp

theorem locate_eq_ok_iff (h : Written text before path after) {location : Location} :
    after.locate q = .ok location ↔ before.locate q = .ok location := by
  cases h with
  | nowhere => rfl
  | somewhere hwrite => exact FileTree.locate_eq_ok_iff_of_write hwrite

theorem read_eq (h : Written text before (some p) after) :
    after.read p = .ok (Text.encode text) := by
  cases h with
  | somewhere hwrite => exact FileTree.read_of_write hwrite

theorem exists_location (h : Written text before (some p) after) :
    ∃ location, before.locate p = .ok location := by
  cases h with
  | somewhere hwrite =>
    obtain ⟨location, hp, _⟩ := FileTree.exists_location_of_write hwrite
    exact ⟨location, hp⟩

theorem read_eq_of_ne (h : Written text before path after) {location : Location}
    (hq : before.locate q = .ok location)
    (hother : ∀ p ∈ path, before.locate p ≠ before.locate q) : after.read q = before.read q := by
  cases h with
  | nowhere => rfl
  | @somewhere p _ hwrite => exact FileTree.read_of_write_of_ne hwrite hq (hother p rfl)

end Written

theorem written_of_deliverSymbols {options : RunOptions} {product : Product}
    {files : FileTree} {stdout : String}
    (h : (options.deliverSymbols product files stdout).failure = none) :
    product.unencodable = none ∧
      Written product.symbols.exported files options.symbols
        (options.deliverSymbols product files stdout).files ∧
      (options.deliverSymbols product files stdout).stdout = stdout := by
  unfold RunOptions.deliverSymbols at *
  cases hencodable : product.unencodable with
  | some e =>
    simp only [hencodable] at h
    cases h
  | none =>
    cases hpath : options.symbols with
    | none => exact ⟨rfl, .nowhere, rfl⟩
    | some q =>
      simp only [hencodable, hpath] at h ⊢
      cases hwrite : files.write q product.symbols.exported with
      | ok after => exact ⟨trivial, .somewhere hwrite, rfl⟩
      | error e =>
        simp only [hwrite] at h
        cases h

/-- All of a text that can be encoded is written. -/
theorem Product.written_eq {product : Product} (h : product.unencodable = none) :
    product.written = product.text := by
  rw [written, h]
  rfl

/-- The two outputs, where both are files, are different files. -/
def RunOptions.Apart (options : RunOptions) (files : FileTree) : Prop :=
  ∀ p ∈ options.output, ∀ q ∈ options.symbols, files.locate p ≠ files.locate q

instance (options : RunOptions) (files : FileTree) : Decidable (options.Apart files) :=
  inferInstanceAs (Decidable (∀ p ∈ options.output, ∀ q ∈ options.symbols, _))

/-- What stands in the tree and on the standard output after a delivery. -/
structure Delivered (options : RunOptions) (product : Product) (before : FileTree)
    (stdout : String) (after : FileTree) : Prop where
  stdout_eq : stdout = if options.output = none then product.text else ""
  /-- The symbols are written last, and so over the description if it is the same file. -/
  output : options.Apart before →
    ∀ p ∈ options.output, after.read p = .ok (Text.encode product.text)
  symbols : ∀ q ∈ options.symbols, after.read q = .ok (Text.encode product.symbols.exported)
  /-- Everywhere else, the tree is as before. -/
  elsewhere : ∀ location, (∀ p, p ∈ options.output ∨ p ∈ options.symbols →
    before.locate p ≠ .ok location) → after.node? location = before.node? location

theorem delivered_of_written {options : RunOptions} {product : Product}
    {before between after : FileTree} {stdout : String}
    (hstdout : stdout = if options.output = none then product.text else "")
    (htext : Written product.text before options.output between)
    (hsymbols : Written product.symbols.exported between options.symbols after) :
    Delivered options product before stdout after where
  stdout_eq := hstdout
  output := by
    intro hapart p hp
    rw [hp] at htext
    obtain ⟨location, hlocation⟩ := htext.exists_location
    have hp' : between.locate p = .ok location := htext.locate_eq_ok_iff.mpr hlocation
    rw [hsymbols.read_eq_of_ne hp', htext.read_eq]
    intro q hq hsame
    rw [hp'] at hsame
    exact hapart p hp q hq (hlocation.trans (htext.locate_eq_ok_iff.mp hsame).symm)
  symbols := by
    intro q hq
    rw [hq] at hsymbols
    exact hsymbols.read_eq
  elsewhere := by
    intro location hother
    rw [hsymbols.node?_eq, htext.node?_eq]
    · exact fun p hp => hother p (.inl hp)
    · exact fun q hq hlocate => hother q (.inr hq) (htext.locate_eq_ok_iff.mp hlocate)

theorem delivered_of_failure_eq_none {options : RunOptions} {product : Product}
    {files : FileTree} (h : (options.deliver product files).failure = none) :
    Delivered options product files (options.deliver product files).stdout
      (options.deliver product files).files := by
  unfold RunOptions.deliver at *
  cases hpath : options.output with
  | none =>
    simp only [hpath] at h ⊢
    obtain ⟨hencodable, hsymbols, hstdout⟩ := written_of_deliverSymbols h
    refine delivered_of_written ?_ (hpath ▸ .nowhere) hsymbols
    rw [hstdout, if_pos hpath, Product.written_eq hencodable]
  | some p =>
    simp only [hpath] at h ⊢
    cases hwrite : files.write p product.written with
    | error e =>
      simp only [hwrite] at h
      cases h
    | ok between =>
      simp only [hwrite] at h ⊢
      obtain ⟨hencodable, hsymbols, hstdout⟩ := written_of_deliverSymbols h
      rw [Product.written_eq hencodable] at hwrite
      refine delivered_of_written ?_ (hpath ▸ .somewhere hwrite) hsymbols
      rw [hstdout, if_neg (by rw [hpath]; exact Option.some_ne_none p)]

/-- The files that are asked for can be written. -/
def RunOptions.Writable (options : RunOptions) (files : FileTree) : Prop :=
  (∀ p ∈ options.output, files.Accepts p) ∧ ∀ q ∈ options.symbols, files.Accepts q

instance (options : RunOptions) (files : FileTree) : Decidable (options.Writable files) :=
  inferInstanceAs (Decidable (_ ∧ _))

theorem deliverSymbols_failure_iff {options : RunOptions} {product : Product}
    {files : FileTree} {stdout : String} :
    (options.deliverSymbols product files stdout).failure = none ↔
      product.unencodable = none ∧ ∀ q ∈ options.symbols, files.Accepts q := by
  unfold RunOptions.deliverSymbols
  cases product.unencodable with
  | some e => simp
  | none =>
    cases options.symbols with
    | none => simp
    | some q =>
      cases hwrite : files.write q product.symbols.exported with
      | ok after => simp [hwrite, FileTree.accepts_of_write hwrite]
      | error e => simp [hwrite, FileTree.not_accepts_of_write hwrite]

/-- Where the files can be written, only the text can make a delivery fail. -/
theorem deliver_failure_of_unencodable {options : RunOptions} {product : Product}
    {files : FileTree} {e : Text.EncodeError} (h : product.unencodable = some e)
    (hwritable : options.Writable files) :
    (options.deliver product files).failure = some (.unencodable e) := by
  unfold RunOptions.deliver RunOptions.deliverSymbols
  rw [h]
  cases hpath : options.output with
  | none => rfl
  | some p =>
    cases hwrite : files.write p product.written with
    | ok after => simp only [hwrite]
    | error e => exact absurd (hwritable.1 p hpath) (FileTree.not_accepts_of_write hwrite)

/-- Whether the files can be written does not depend on what there is to write. -/
theorem deliver_failure_iff {options : RunOptions} {product : Product} {files : FileTree} :
    (options.deliver product files).failure = none ↔
      product.unencodable = none ∧ options.Writable files := by
  unfold RunOptions.deliver RunOptions.Writable
  cases options.output with
  | none =>
    simp only [deliverSymbols_failure_iff]
    simp
  | some p =>
    cases hwrite : files.write p product.written with
    | ok between =>
      simp only [hwrite, deliverSymbols_failure_iff, FileTree.accepts_iff_of_write hwrite]
      simp [FileTree.accepts_of_write hwrite]
    | error e => simp [hwrite, FileTree.not_accepts_of_write hwrite]

end FlexSynth
