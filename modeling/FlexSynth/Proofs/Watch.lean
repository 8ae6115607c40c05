import FlexSynth.Proofs.Run.Single

/-!
# Watching runs

A watching run never leaves old or half-written outputs (`watch_outputs_current`). After
every look, the scanner description and the symbols are what a single run leaves of the
grammar file as it was at the last look that generated, and they are as in the beginning if
no look has generated. The run goes on until an interrupt, unless a grammar file holds an integer
that is not converted: the look that has to act on it changes nothing, and is the last
(`Finished`).

`Triggered` and `lastGenerated` say which look that is, from the files alone that the looks
have found, and not from the state of the loop. `Looked` lists what one look can do
(`looked_poll`). A look keeps the outputs current (`Current.step`), and so does a run of
looks, by induction on the edits (`watchFrom_correct`).

Others may do what they like between the looks, but leave the outputs alone.
-/

namespace FlexSynth

/-! ## Triggers -/

/-- The time that a look has to act on: the grammar file is there, and its time is not the
last one. -/
def newTime? (options : RunOptions) (last : Nat) (tree : FileTree) : Option Nat :=
  match tree.modified options.input with
  | .ok time => if time = last then none else some time
  | .error _ => none

/-- The time of the last look that had to act. The files that the looks have found come the
latest first. -/
def lastTime (options : RunOptions) : List FileTree → Nat
  | [] => 0
  | tree :: earlier =>
    (newTime? options (lastTime options earlier) tree).getD (lastTime options earlier)

/-- A look has to act that finds `tree`, after looks that have found `earlier`. -/
def Triggered (options : RunOptions) (earlier : List FileTree) (tree : FileTree) : Prop :=
  (newTime? options (lastTime options earlier) tree).isSome = true

instance (options : RunOptions) (earlier : List FileTree) (tree : FileTree) :
    Decidable (Triggered options earlier tree) :=
  inferInstanceAs (Decidable (_ = true))

/-- What was found by the last look that had to act and could generate. -/
def lastGenerated (options : RunOptions) : List FileTree → Option FileTree
  | [] => none
  | tree :: earlier =>
    if Triggered options earlier tree ∧ (produce options tree).2.isOk = true then some tree
    else lastGenerated options earlier

/-! ## The files that are found -/

/-- The grammar file is not there, or it is a file that holds text. -/
def GrammarVisible (options : RunOptions) (tree : FileTree) : Prop :=
  (∃ fault, tree.find options.input = .error fault ∧ fault.isOfSystem = true) ∨
    ∃ octets time source, tree.find options.input = .ok (.file octets time) ∧
      Text.decode octets = .ok source

/-- What is generated can be encoded and written, and the two outputs are different files. -/
def Deliverable (options : RunOptions) (tree : FileTree) : Prop :=
  ∀ product, (produce options tree).2 = .ok product →
    product.unencodable = none ∧ options.Writable tree ∧ options.Apart tree

/-- What a look finds, after others, is what it is made for. -/
structure Expected (options : RunOptions) (earlier : List FileTree) (tree : FileTree) :
    Prop where
  visible : GrammarVisible options tree
  deliverable : Triggered options earlier tree → Deliverable options tree

instance (options : RunOptions) (tree : FileTree) : Decidable (GrammarVisible options tree) :=
  match hfind : tree.find options.input with
  | .error fault => decidable_of_iff (fault.isOfSystem = true) (by simp [GrammarVisible, hfind])
  | .ok (.file octets time) =>
    match hdecode : Text.decode octets with
    | .ok source => isTrue (.inr ⟨octets, time, source, hfind, hdecode⟩)
    | .error _ => isFalse (by simp [GrammarVisible, hfind, hdecode])
  | .ok (.directory _) => isFalse (by simp [GrammarVisible, hfind])

instance (options : RunOptions) (tree : FileTree) : Decidable (Deliverable options tree) :=
  match hmade : (produce options tree).2 with
  | .error _ => isTrue (by simp [Deliverable, hmade])
  | .ok product =>
    decidable_of_iff
      (product.unencodable = none ∧ options.Writable tree ∧ options.Apart tree)
      (by simp [Deliverable, hmade])

/-- Looks that find `trees` one after the other, after others that have found `earlier`, find
what they are made for. -/
def AllExpected (options : RunOptions) (earlier trees : List FileTree) : Prop :=
  ∀ (before : List FileTree) (tree : FileTree) (after : List FileTree),
    trees = before ++ tree :: after → Expected options (before.reverse ++ earlier) tree

/-- Each look finds the outputs as the one before has left them. -/
def OutputsKept (out sym : Path) (polls : List Poll) : Prop :=
  ∀ (before : List Poll) (p q : Poll) (after : List Poll), polls = before ++ p :: q :: after →
    q.before.read out = p.after.read out ∧ q.before.read sym = p.after.read sym

/-- The files that each look of a run finds, in their order. -/
def found (options : RunOptions) (seen : Nat) (shared : SharedTree) : List Edit → List FileTree
  | [] => [shared.tree]
  | edit :: more =>
    let look := poll options seen shared.tree
    shared.tree ::
      if look.failure.isSome then []
      else found options look.seen ({ shared with tree := look.files }.edit edit) more

/-! ## One look -/

/-- What a look can do that finds what it is made for. -/
inductive Looked (options : RunOptions) (seen : Nat) (tree : FileTree) : Look → Prop
  | idle : newTime? options seen tree = none → Looked options seen tree ⟨seen, tree, {}, none⟩
  | faulty {time : Nat} {e : GenerationError} {output : Output} :
      newTime? options seen tree = some time → (produce options tree).2 = .error e →
      Looked options seen tree ⟨time, tree, output, none⟩
  | stopped {time : Nat} {e : Text.LongInteger} {output : Output} :
      newTime? options seen tree = some time →
      (produce options tree).2 = .error (.longInteger e) →
      Looked options seen tree ⟨time, tree, output, some (.longInteger e)⟩
  | made {time : Nat} {product : Product} {files : FileTree} {output : Output} :
      newTime? options seen tree = some time → (produce options tree).2 = .ok product →
      Delivered options product tree output.stdout files →
      Looked options seen tree ⟨time, files, output, none⟩

section

variable {options : RunOptions} {seen time : Nat} {tree : FileTree}

theorem looked_regenerate {octets : List UInt8} {source : String}
    (htime : newTime? options seen tree = some time)
    (hread : tree.read options.input = .ok octets) (hdecode : Text.decode octets = .ok source)
    (hdeliver : Deliverable options tree) :
    Looked options seen tree (regenerate options time tree) := by
  have hgenerated := generated options tree
  unfold regenerate
  cases hproduce : produce options tree with
  | mk log made =>
    have hmade : (produce options tree).2 = made := by rw [hproduce]
    rw [hmade] at hgenerated
    cases hgenerated with
    | unreadable hread' =>
      rw [hread] at hread'
      cases hread'
    | undecodable hread' hdecode' =>
      rw [hread] at hread'
      cases hread'
      rw [hdecode] at hdecode'
      cases hdecode'
    | longInteger _ _ => exact .stopped htime hmade
    | rejected _ _ => exact .faulty htime hmade
    | untranslatable _ _ => exact .faulty htime hmade
    | made _ _ _ =>
      obtain ⟨hencodable, hwritable, _⟩ := hdeliver _ hmade
      have hfailure := deliver_failure_iff.mpr ⟨hencodable, hwritable⟩
      have hdelivered := delivered_of_failure_eq_none hfailure
      simp only [hfailure]
      exact .made htime hmade hdelivered

theorem looked_poll (hvisible : GrammarVisible options tree)
    (hdeliver : (newTime? options seen tree).isSome = true → Deliverable options tree) :
    Looked options seen tree (poll options seen tree) := by
  have hnew : newTime? options seen tree = match tree.modified options.input with
    | .ok time => if time = seen then none else some time
    | .error _ => none := rfl
  unfold poll
  unfold FileTree.modified at *
  rcases hvisible with ⟨fault, hfind, hsystem⟩ | ⟨octets, time, source, hfind, hdecode⟩
  · simp only [hfind, Except.map, hsystem, if_true] at hnew ⊢
    exact .idle hnew
  · have hread : tree.read options.input = .ok octets := by
      unfold FileTree.read
      rw [hfind]
    simp only [hfind, Except.map, FileNode.modified] at hnew ⊢
    split
    · next hsame =>
      rw [if_pos hsame] at hnew
      exact .idle hnew
    · next hother =>
      rw [if_neg hother] at hnew
      exact looked_regenerate hnew hread hdecode (hdeliver (by rw [hnew]; rfl))

end

/-! ## Current outputs -/

/-- The same options, for a run that does not watch. -/
def RunOptions.single (options : RunOptions) : RunOptions :=
  { options with watch := false }

/-- The files hold at two paths what a single run with the same options leaves there, wherever
it finds the grammar file that `tree` has. -/
def LeftBySingleRun (options : RunOptions) (out sym : Path) (tree files : FileTree) : Prop :=
  ∀ other, other.read options.input = tree.read options.input → Deliverable options other →
    (runOnce options.single other).ending = .exit 0 ∧
      files.read out = (runOnce options.single other).files.read out ∧
      files.read sym = (runOnce options.single other).files.read sym

/-- The files hold at two paths what looks that found `trees` should have left there, when
`start` was there in the beginning. -/
structure Current (options : RunOptions) (out sym : Path) (start : FileTree)
    (trees : List FileTree) (files : FileTree) : Prop where
  initial : lastGenerated options trees = none →
    files.read out = start.read out ∧ files.read sym = start.read sym
  generated : ∀ tree, lastGenerated options trees = some tree →
    LeftBySingleRun options out sym tree files

section

variable {options : RunOptions} {out sym : Path} {start tree files : FileTree}
  {earlier : List FileTree} {look : Look}

/-- What is delivered depends only on the grammar file. -/
theorem leftBySingleRun_of_delivered {product : Product} {stdout : String}
    (hout : options.output = some out) (hsym : options.symbols = some sym)
    (hmade : (produce options tree).2 = .ok product) (hdeliver : Deliverable options tree)
    (hdelivered : Delivered options product tree stdout files) :
    LeftBySingleRun options out sym tree files := by
  intro other hread hother
  have hsame : (produce options other).2 = .ok product := by rw [produce_congr hread, hmade]
  obtain ⟨_, _, hapart⟩ := hdeliver product hmade
  obtain ⟨hencodable, hwritable, hapart'⟩ := hother product hsame
  have hsingle : (produce options.single other).2 = .ok product := hsame
  have heffect := effect_runOnce options.single other
  rw [hsingle] at heffect
  have hending : (runOnce options.single other).ending =
      (options.deliver product other).ending := congrArg RunEffect.ending heffect
  have hfiles : (runOnce options.single other).files =
      (options.deliver product other).files := congrArg RunEffect.files heffect
  have hfailure : (options.deliver product other).failure = none :=
    deliver_failure_iff.mpr ⟨hencodable, hwritable⟩
  have hdelivered' := delivered_of_failure_eq_none hfailure
  refine ⟨?_, ?_, ?_⟩
  · rw [hending, Delivery.ending, hfailure]
  · rw [hfiles, hdelivered.output hapart out hout, hdelivered'.output hapart' out hout]
  · rw [hfiles, hdelivered.symbols sym hsym, hdelivered'.symbols sym hsym]

namespace Current

/-- Whether the files are current depends on the two paths only. -/
theorem congr {other : FileTree} (h : Current options out sym start earlier files)
    (hout : other.read out = files.read out) (hsym : other.read sym = files.read sym) :
    Current options out sym start earlier other where
  initial := by
    rw [hout, hsym]
    exact h.initial
  generated := by
    unfold LeftBySingleRun
    rw [hout, hsym]
    exact h.generated

/-- A look that does not generate leaves the files current that it leaves as they are. -/
theorem skip (h : Current options out sym start earlier tree)
    (hskip : ¬(Triggered options earlier tree ∧ (produce options tree).2.isOk = true)) :
    Current options out sym start (tree :: earlier) tree where
  initial := by
    rw [lastGenerated, if_neg hskip]
    exact h.initial
  generated := by
    rw [lastGenerated, if_neg hskip]
    exact h.generated

theorem step (hout : options.output = some out) (hsym : options.symbols = some sym)
    (h : Current options out sym start earlier tree)
    (hlook : Looked options (lastTime options earlier) tree look)
    (hdeliver : Triggered options earlier tree → Deliverable options tree) :
    Current options out sym start (tree :: earlier) look.files := by
  cases hlook with
  | idle hidle =>
    refine h.skip ?_
    rintro ⟨htriggered, _⟩
    rw [Triggered, hidle] at htriggered
    cases htriggered
  | faulty _ he | stopped _ he =>
    refine h.skip ?_
    rintro ⟨_, hok⟩
    rw [he] at hok
    cases hok
  | made htime hmade hdelivered =>
    have htriggered : Triggered options earlier tree := by rw [Triggered, htime]; rfl
    have hlast : lastGenerated options (tree :: earlier) = some tree := by
      rw [lastGenerated, if_pos ⟨htriggered, by rw [hmade]; rfl⟩]
    constructor
    · rw [hlast]
      rintro ⟨⟩
    · rw [hlast]
      rintro _ ⟨⟩
      exact leftBySingleRun_of_delivered hout hsym hmade (hdeliver htriggered) hdelivered

end Current

/-- A look that finds what it is made for does not end the run, but for one reason. -/
theorem Looked.failure_cases {seen : Nat} (hlook : Looked options seen tree look) :
    look.failure = none ∨ ∃ e, (newTime? options seen tree).isSome = true ∧
      (produce options tree).2 = .error (.longInteger e) ∧
      look.failure = some (.longInteger e) ∧ look.files = tree := by
  cases hlook with
  | idle _ => exact .inl rfl
  | faulty _ _ => exact .inl rfl
  | stopped htime hmade => exact .inr ⟨_, by rw [htime]; rfl, hmade, rfl, rfl⟩
  | made _ _ _ => exact .inl rfl

theorem Looked.seen_eq (hlook : Looked options (lastTime options earlier) tree look) :
    look.seen = lastTime options (tree :: earlier) := by
  rw [lastTime]
  cases hlook with
  | idle hidle => rw [hidle]; rfl
  | faulty htime _ | stopped htime _ => rw [htime]; rfl
  | made htime _ _ => rw [htime]; rfl

end

/-! ## Runs -/

/-- What is asked of a look of a run, after looks that have found `earlier`; `printed` is what
came before the look. -/
structure Poll.Correct (options : RunOptions) (out sym : Path) (start : FileTree)
    (printed : Output) (earlier : List FileTree) (p : Poll) : Prop where
  current : Current options out sym start (p.before :: earlier) p.after
  /-- A grammar that nothing can be made of changes no file. -/
  faulty : ∀ e, (produce options p.before).2 = .error e → p.after = p.before
  /-- A look that need not act changes no file and prints nothing. -/
  idle : ¬Triggered options earlier p.before → p.after = p.before ∧ p.output = printed

/-- How a run of looks ends that have found `trees`, after others that have found `earlier`. -/
inductive Finished (options : RunOptions) (earlier trees : List FileTree) (edits : List Edit)
    (t : Transcript) : Prop
  | interrupted : t.ending = .exit 0 → t.polls.length = edits.length + 1 →
      Finished options earlier trees edits t
  /-- The last look has to act on an integer that is not converted, and leaves the files as it
  has found them. -/
  | stopped {before : List FileTree} {tree : FileTree} {e : Text.LongInteger} :
      trees = before ++ [tree] → Triggered options (before.reverse ++ earlier) tree →
      (produce options tree).2 = .error (.longInteger e) → t.ending = .failed (.longInteger e) →
      t.files = tree → t.polls.length = before.length → Finished options earlier trees edits t

section

variable {options : RunOptions} {out sym : Path} {start : FileTree} {earlier : List FileTree}
  {seen : Nat} {shared : SharedTree} {printed : Output} {edits more : List Edit} {edit : Edit}

theorem Output.append_empty (o : Output) : o ++ ({} : Output) = o := by
  show Output.append o {} = o
  simp [Output.append]

theorem Poll.correct_of_looked {p : Poll} {look : Look}
    (hout : options.output = some out) (hsym : options.symbols = some sym)
    (hcurrent : Current options out sym start earlier p.before)
    (hlook : Looked options (lastTime options earlier) p.before look)
    (hdeliver : Triggered options earlier p.before → Deliverable options p.before)
    (hafter : p.after = look.files) (houtput : p.output = printed ++ look.output) :
    p.Correct options out sym start printed earlier where
  current := hafter ▸ hcurrent.step hout hsym hlook hdeliver
  faulty := by
    intro e he
    rw [hafter]
    cases hlook with
    | idle _ => rfl
    | faulty _ _ => rfl
    | stopped _ _ => rfl
    | made _ hmade _ =>
      rw [he] at hmade
      cases hmade
  idle := by
    intro hidle
    rw [hafter, houtput]
    have hnone : newTime? options (lastTime options earlier) p.before = none := by
      rw [Triggered, Option.not_isSome_iff_eq_none] at hidle
      exact hidle
    cases hlook with
    | idle _ => exact ⟨rfl, Output.append_empty printed⟩
    | faulty htime _ | stopped htime _ =>
      rw [hnone] at htime
      cases htime
    | made htime _ _ =>
      rw [hnone] at htime
      cases htime

/-- The files after a look and the edit that follows it. -/
def sharedAfter (options : RunOptions) (seen : Nat) (shared : SharedTree) (edit : Edit) :
    SharedTree :=
  { shared with tree := (poll options seen shared.tree).files }.edit edit

theorem watchFrom_nil (hfailure : (poll options seen shared.tree).failure = none) :
    watchFrom options seen shared printed [] =
      ⟨[⟨printed ++ (poll options seen shared.tree).output, shared.tree,
        (poll options seen shared.tree).files⟩], {}, .exit 0,
        (poll options seen shared.tree).files⟩ := by
  rw [watchFrom, Look.continued, hfailure]

theorem watchFrom_cons (hfailure : (poll options seen shared.tree).failure = none) :
    watchFrom options seen shared printed (edit :: more) =
      let later := watchFrom options (poll options seen shared.tree).seen
        (sharedAfter options seen shared edit) {} more
      { later with
        polls := ⟨printed ++ (poll options seen shared.tree).output, shared.tree,
          (poll options seen shared.tree).files⟩ :: later.polls } := by
  rw [watchFrom, Look.continued, hfailure]
  rfl

theorem found_cons (hfailure : (poll options seen shared.tree).failure = none) :
    found options seen shared (edit :: more) =
      shared.tree :: found options (poll options seen shared.tree).seen
        (sharedAfter options seen shared edit) more := by
  rw [found, hfailure]
  rfl

theorem watchFrom_failed {f : Failure} (hfailure : (poll options seen shared.tree).failure = some f) :
    watchFrom options seen shared printed edits =
      ⟨[], printed ++ (poll options seen shared.tree).output, .failed f,
        (poll options seen shared.tree).files⟩ := by
  cases edits with
  | nil => rw [watchFrom, Look.continued, hfailure]
  | cons edit more => rw [watchFrom, Look.continued, hfailure]

theorem found_failed {f : Failure} (hfailure : (poll options seen shared.tree).failure = some f) :
    found options seen shared edits = [shared.tree] := by
  cases edits with
  | nil => rfl
  | cons edit more =>
    rw [found, hfailure]
    rfl

theorem exists_polls_cons (hfailure : (poll options seen shared.tree).failure = none) :
    ∃ p rest, (watchFrom options seen shared printed edits).polls = p :: rest ∧
      p.before = shared.tree := by
  cases edits with
  | nil =>
    rw [watchFrom_nil hfailure]
    exact ⟨_, _, rfl, rfl⟩
  | cons edit more =>
    rw [watchFrom_cons hfailure]
    exact ⟨_, _, rfl, rfl⟩

theorem exists_found_cons (options : RunOptions) (seen : Nat) (shared : SharedTree)
    (edits : List Edit) : ∃ rest, found options seen shared edits = shared.tree :: rest := by
  cases edits with
  | nil => exact ⟨_, rfl⟩
  | cons edit more => exact ⟨_, rfl⟩

theorem looked_first (hseen : seen = lastTime options earlier)
    (hexpected : AllExpected options earlier (found options seen shared edits)) :
    Looked options (lastTime options earlier) shared.tree (poll options seen shared.tree) ∧
      (Triggered options earlier shared.tree → Deliverable options shared.tree) := by
  obtain ⟨rest, hfound⟩ := exists_found_cons options seen shared edits
  obtain ⟨hvisible, hdeliver⟩ := hexpected [] shared.tree rest hfound
  exact ⟨hseen ▸ looked_poll hvisible (hseen ▸ hdeliver), hdeliver⟩

theorem AllExpected.tail {tree : FileTree} {trees : List FileTree}
    (h : AllExpected options earlier (tree :: trees)) :
    AllExpected options (tree :: earlier) trees := by
  intro before next after hsplit
  have hnext := h (tree :: before) next after (congrArg _ hsplit)
  rwa [List.reverse_cons, List.append_assoc, List.singleton_append] at hnext

theorem OutputsKept.tail {p : Poll} {polls : List Poll} (h : OutputsKept out sym (p :: polls)) :
    OutputsKept out sym polls :=
  fun before q r after hsplit => h (p :: before) q r after (congrArg _ hsplit)

/-- A run whose first look is stopped has no other. -/
theorem Finished.of_stopped {tree : FileTree} {e : Text.LongInteger}
    (htree : shared.tree = tree) (hseen : seen = lastTime options earlier)
    (htriggered : (newTime? options seen tree).isSome = true)
    (hmade : (produce options tree).2 = .error (.longInteger e))
    (hfailure : (poll options seen shared.tree).failure = some (.longInteger e))
    (hfiles : (poll options seen shared.tree).files = tree) :
    Finished options earlier (found options seen shared edits) edits
      (watchFrom options seen shared printed edits) := by
  subst htree hseen
  rw [watchFrom_failed hfailure, found_failed hfailure]
  have hfirst : Triggered options (([] : List FileTree).reverse ++ earlier) shared.tree := htriggered
  exact .stopped rfl hfirst hmade rfl hfiles rfl

/-- A look that goes on, and the run after it. -/
theorem Finished.cons {tree : FileTree} {trees : List FileTree} {t : Transcript} (p : Poll)
    (h : Finished options (tree :: earlier) trees more t) :
    Finished options earlier (tree :: trees) (edit :: more) { t with polls := p :: t.polls } := by
  cases h with
  | interrupted hending hlength => exact .interrupted hending (congrArg Nat.succ hlength)
  | @stopped before last e htrees htriggered hmade hending hfiles hlength =>
    subst htrees
    have hlast : Triggered options ((tree :: before).reverse ++ earlier) last := by
      rwa [List.reverse_cons, List.append_assoc, List.singleton_append]
    exact .stopped rfl hlast hmade hending hfiles (congrArg Nat.succ hlength)

/-- Every look of a run is correct, if each finds what it is made for and others leave the
outputs alone. -/
theorem watchFrom_correct (hout : options.output = some out) (hsym : options.symbols = some sym)
    (hseen : seen = lastTime options earlier)
    (hcurrent : (poll options seen shared.tree).failure = none →
      Current options out sym start earlier shared.tree)
    (hexpected : AllExpected options earlier (found options seen shared edits))
    (hkept : OutputsKept out sym (watchFrom options seen shared printed edits).polls) :
    Finished options earlier (found options seen shared edits) edits
        (watchFrom options seen shared printed edits) ∧
      ∀ (before : List Poll) (p : Poll) (after : List Poll),
        (watchFrom options seen shared printed edits).polls = before ++ p :: after →
        p.Correct options out sym start (if before = [] then printed else {})
          ((before.map Poll.before).reverse ++ earlier) := by
  induction edits generalizing seen shared printed earlier with
  | nil =>
    obtain ⟨hlook, hdeliver⟩ := looked_first hseen hexpected
    rcases hlook.failure_cases with hfailure | ⟨e, htriggered, hmade, hfailure, hfiles⟩
    · rw [watchFrom_nil hfailure]
      refine ⟨.interrupted rfl rfl, ?_⟩
      intro before p after hsplit
      cases before with
      | nil =>
        cases hsplit
        exact Poll.correct_of_looked hout hsym (hcurrent hfailure) hlook hdeliver rfl rfl
      | cons first rest => simp at hsplit
    · refine ⟨.of_stopped rfl hseen (hseen ▸ htriggered) hmade hfailure hfiles, ?_⟩
      rw [watchFrom_failed hfailure]
      intro before p after hsplit
      simp at hsplit
  | cons edit more ih =>
    obtain ⟨hlook, hdeliver⟩ := looked_first hseen hexpected
    rcases hlook.failure_cases with hfailure | ⟨e, htriggered, hmade, hfailure, hfiles⟩
    · rw [watchFrom_cons hfailure] at hkept ⊢
      rw [found_cons hfailure] at hexpected ⊢
      have hexpected' := hexpected.tail
      -- The second look finds the outputs as the first one has left them.
      have hcurrent' (hfailure' : (poll options (poll options seen shared.tree).seen
          (sharedAfter options seen shared edit).tree).failure = none) :
          Current options out sym start (shared.tree :: earlier)
            (sharedAfter options seen shared edit).tree := by
        obtain ⟨q, rest, hpolls, hq⟩ := exists_polls_cons hfailure'
        obtain ⟨ho, hs⟩ := hkept [] _ q rest (congrArg _ hpolls)
        rw [hq] at ho hs
        exact ((hcurrent hfailure).step hout hsym hlook hdeliver).congr ho hs
      obtain ⟨hfinished, hcorrect⟩ := ih hlook.seen_eq hcurrent' hexpected' hkept.tail
      refine ⟨hfinished.cons _, ?_⟩
      intro before p after hsplit
      cases before with
      | nil =>
        cases hsplit
        exact Poll.correct_of_looked hout hsym (hcurrent hfailure) hlook hdeliver rfl rfl
      | cons first before =>
        obtain ⟨rfl, hrest⟩ := List.cons.inj hsplit
        have h := hcorrect before p after hrest
        rw [ite_self] at h
        rw [List.map_cons, List.reverse_cons, List.append_assoc, if_neg (List.cons_ne_nil _ _)]
        exact h
    · refine ⟨.of_stopped rfl hseen (hseen ▸ htriggered) hmade hfailure hfiles, ?_⟩
      rw [watchFrom_failed hfailure]
      intro before p after hsplit
      simp at hsplit

/-- A watching run never leaves old or half-written outputs. If each look finds what it is made
for and others leave the outputs alone, no look ends the run but one that meets an integer that is
not converted, which changes nothing. After each look the outputs are current. -/
theorem watch_outputs_current (hout : options.output = some out)
    (hsym : options.symbols = some sym) (shared : SharedTree) (edits : List Edit)
    (hexpected : AllExpected options [] (found options 0 shared edits))
    (hkept : OutputsKept out sym (watchRun options shared edits).polls) :
    Finished options [] (found options 0 shared edits) edits (watchRun options shared edits) ∧
      ∀ (before : List Poll) (p : Poll) (after : List Poll),
        (watchRun options shared edits).polls = before ++ p :: after →
        p.Correct options out sym shared.tree
          (if before = [] then ⟨"", watchNotice options ++ "\n"⟩ else {})
          (before.map Poll.before).reverse := by
  have hstart : Current options out sym shared.tree [] shared.tree := by
    constructor
    · exact fun _ => ⟨rfl, rfl⟩
    · rintro tree ⟨⟩
  have hseen : 0 = lastTime options [] := rfl
  have h := watchFrom_correct hout hsym hseen (fun _ => hstart) hexpected hkept
  simp only [List.append_nil] at h
  exact h

/-- A run that watches a grammar in the working directory. -/
def workOptions : RunOptions where
  input := .ofString "g.json"
  output := some (.ofString "g.l")
  symbols := some (.ofString "s.json")
  generator := { name := "g" }
  watch := true
  debug := false
  verbose := false

/-- Others write a grammar of one keyword. -/
def keywordEdit : Edit where
  delete := []
  write := [(.ofString "g.json", .file (Text.encode "\x7b\"symbols\": [\"if\"]\x7d"))]
  keepTime := false

theorem watch_outputs_current_keyword :
    (watchRun workOptions {} [keywordEdit]).ending = .exit 0 ∧
      (watchRun workOptions {} [keywordEdit]).polls.length = 2 ∧
      Finished workOptions [] (found workOptions 0 {} [keywordEdit]) [keywordEdit]
        (watchRun workOptions {} [keywordEdit]) ∧
      ∀ (before : List Poll) (p : Poll) (after : List Poll),
        (watchRun workOptions {} [keywordEdit]).polls = before ++ p :: after →
        p.Correct workOptions (.ofString "g.l") (.ofString "s.json") {}
          (if before = [] then ⟨"", watchNotice workOptions ++ "\n"⟩ else {})
          (before.map Poll.before).reverse := by
  have hfirst : (poll workOptions 0 ({} : SharedTree).tree).failure = none := by decide +kernel
  have hsecond : (poll workOptions (poll workOptions 0 ({} : SharedTree).tree).seen
      (sharedAfter workOptions 0 {} keywordEdit).tree).failure = none := by
    decide +kernel
  have hvisible : GrammarVisible workOptions (sharedAfter workOptions 0 {} keywordEdit).tree := by
    decide +kernel
  have hdeliver : Deliverable workOptions (sharedAfter workOptions 0 {} keywordEdit).tree := by
    decide +kernel
  have hrun : watchRun workOptions {} [keywordEdit] = _ := watchFrom_cons hfirst
  rw [watchFrom_nil hsecond] at hrun
  refine ⟨congrArg Transcript.ending hrun,
    congrArg (fun t : Transcript => t.polls.length) hrun,
    watch_outputs_current rfl rfl {} [keywordEdit] ?_ ?_⟩
  · rw [found_cons hfirst]
    rintro (_ | ⟨first, _ | ⟨second, rest⟩⟩) tree after hsplit
    · obtain ⟨rfl, _⟩ := List.cons.inj hsplit
      exact ⟨by decide +kernel, fun _ => by decide +kernel⟩
    · obtain ⟨_, hrest⟩ := List.cons.inj hsplit
      obtain ⟨rfl, _⟩ := List.cons.inj hrest
      exact ⟨hvisible, fun _ => hdeliver⟩
    · simp [found] at hsplit
  · rw [hrun]
    rintro (_ | ⟨first, before⟩) p q after hsplit
    · obtain ⟨rfl, hrest⟩ := List.cons.inj hsplit
      obtain ⟨rfl, _⟩ := List.cons.inj hrest
      exact ⟨by decide +kernel, by decide +kernel⟩
    · have hlength := congrArg List.length hsplit
      simp at hlength
      omega

end

end FlexSynth
