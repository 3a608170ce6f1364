/-
# Answers of a loader

What a loader answers to a call depends on the trees of the files it has read, and on nothing else
that it holds: neither on what earlier calls have registered, nor on their copies.  The call leaves
these trees as they are.

* `Loader.Extends` : a loader that has only got more trees;
* `Loader.Answers` : what a call ends in, as the shelf and the outcome of a call to a loader that has
  nothing but a shelf;
* `Stored.answers_bundle`, `Stored.answers_load` : bundling and loading.
-/
import SchemaCodecs.Bundle.Load
import SchemaCodecs.Proofs.Bundle.Copies

namespace SchemaCodecs.Loader

variable {loader : Loader}

/-! ## More trees -/

/-- A loader has all trees of another one, and no tree of that one has become the tree of a file. -/
structure Extends (loader later : Loader) : Prop where
  /-- There are at least as many trees. -/
  length_le : loader.trees.length ≤ later.trees.length
  /-- The trees of further files are new. -/
  isFile : ∀ number < loader.trees.length, later.IsFile number → loader.IsFile number

theorem Extends.refl (loader : Loader) : loader.Extends loader :=
  ⟨Nat.le_refl _, fun _ _ h => h⟩

theorem Extends.trans {first second third : Loader} (h : first.Extends second)
    (hnext : second.Extends third) : first.Extends third where
  length_le := h.length_le.trans hnext.length_le
  isFile number hlt hfile :=
    h.isFile number hlt (hnext.isFile number (hlt.trans_le h.length_le) hfile)

theorem Extends.isCopy {later : Loader} (h : loader.Extends later) {number : Nat}
    (hcopy : loader.IsCopy number) : later.IsCopy number :=
  ⟨hcopy.1.trans_le h.length_le, fun hfile => hcopy.2 (h.isFile number hcopy.1 hfile)⟩

theorem extends_changeTree (loader : Loader) (number : Nat) (v : Value) :
    loader.Extends (loader.changeTree number v) :=
  ⟨(length_changeTree loader number v).ge, fun _ _ h => h⟩

theorem extends_keepFile (loader : Loader) (file : Path) (document : Value) :
    loader.Extends (loader.keepFile file document) where
  length_le := (length_addTree loader document).symm ▸ Nat.le_succ _
  isFile _ hlt hfile := (isFile_keepFile_iff.1 hfile).resolve_left (Nat.ne_of_lt hlt)

theorem extends_enter (loader : Loader) (target : Target) (number : Nat) (found : Value) :
    loader.Extends (loader.enter target number found).1 :=
  ⟨(length_addTree loader found).symm ▸ Nat.le_succ _, fun _ _ h => h⟩

theorem extends_start (loader : Loader) (root : Path) (document : Value) :
    loader.Extends (loader.start root document) :=
  ⟨(length_addTree loader document).symm ▸ Nat.le_succ _, fun _ _ h => h⟩

/-- Work only adds trees. -/
theorem extends_work (disk : FileTree) (loader : Loader) (allowance : Nat) (chores : List Chore) :
    loader.Extends (loader.work disk allowance chores).2 := by
  -- Every step either ends the work or adds trees before the rest of it.
  fun_induction work disk loader allowance chores with
  | case1 | case3 | case4 | case8 | case11 => exact .refl _
  | case2 loader _ number file _ ih => exact (extends_changeTree loader number _).trans ih
  | case5 => assumption
  | case6 => assumption
  | case7 => assumption
  | case9 => exact ⟨(length_addTree _ _).symm ▸ Nat.le_succ _, fun _ _ h => h⟩
  | case10 =>
    rename_i ih
    exact (extends_enter _ _ _ _).trans ih
  | case12 => exact extends_keepFile _ _ _
  | case13 =>
    rename_i ih
    exact (extends_keepFile _ _ _).trans ((extends_enter _ _ _ _).trans ih)

/-! ## Answers -/

/-- A call has been answered as by a loader that has a shelf and nothing else. -/
structure Answers (loader : Loader) (called : Except Fault Nat × Loader) (shelf : Shelf)
    (outcome : Except Fault Value) : Prop where
  /-- The trees of the files are there. -/
  stored : called.2.Stored
  /-- They are the documents on the shelf. -/
  shelf_eq : called.2.shelf = shelf
  /-- The answer is the outcome. -/
  outcome_eq : called.1.map called.2.document = outcome
  /-- The loader has only got more trees. -/
  extended : loader.Extends called.2
  /-- What is handed out is not the tree of a file. -/
  isCopy : ∀ number ∈ handedOut called, called.2.IsCopy number

section Bundling

variable {root : Path} {own : Nat} {document : Value} {shelf : Shelf} {gathering : Gathering}

/-- At the beginning of a call there are the chores for the root document. -/
theorem Stored.mirrors_start (stored : loader.Stored) (root : Path) (document : Value) :
    Mirrors (loader.start root document) loader.trees.length document
      ((loader.start root document).chores root loader.trees.length) loader.shelf {}
      (tasksFor root root document) where
  stored := stored.addTree document
  shelf_eq := shelf_addTree stored document
  targets_eq := rfl
  schemas := .nil
  tasks := by
    have hself : (loader.start root document).tree loader.trees.length = document :=
      tree_addTree_self loader document
    have h := forall₂_chores (loader.start root document) root loader.trees.length
    rwa [hself] at h
  copies number file hmem := absurd hmem (redirect_notMem_chores _ _ _ _ _)
  once := by
    rw [filterMap_chores]
    exact List.nodup_nil
  own_eq := ⟨⟨(length_addTree loader document).symm ▸ Nat.lt_succ_self _, stored.not_isFile⟩,
    tree_addTree_self loader document⟩
  own_notMem file := redirect_notMem_chores _ _ _ _ _

/-- When the work is done, adding the copies is installing the schemas. -/
theorem Mirrors.addCopies_eq (h : Mirrors loader own document [] shelf gathering []) (file : Path)
    (schemas : Entries) :
    (loader.redirectTree own file).addCopies schemas
      = installAll loader.root schemas gathering.schemas := by
  have hadd : ∀ copy schema, loader.IsSchema own [] copy schema → ∀ schemas : Entries,
      addSchema schemas copy.target.name ((loader.redirectTree own file).tree copy.tree).unlabelled
          ((loader.redirectTree own file).source copy)
        = installSchema loader.root schemas schema := by
    intro copy schema hschema schemas
    have hown : own ≠ copy.origin := fun heq => h.own_eq.1.2 (heq ▸ hschema.origin)
    have htree : (loader.redirectTree own file).tree copy.tree
        = schema.source.relocated loader.root copy.target.file :=
      (tree_changeTree_of_ne hschema.isCopy.2.symm _).trans (hschema.ready (by simp))
    have hsource : (loader.redirectTree own file).source copy = schema.source :=
      (source_congr (tree_changeTree_of_ne hown _)).trans hschema.source_eq
    rw [htree, hsource, installSchema, Bundled.body, hschema.name_eq, hschema.target_eq]
  have hschemas := h.schemas
  rw [addCopies, installAll]
  show loader.copies.foldlM _ schemas = _
  generalize loader.copies = copies at hschemas
  generalize gathering.schemas = gathered at hschemas
  induction hschemas generalizing schemas with
  | nil => rfl
  | cons hfirst _ ih =>
    rw [List.foldlM_cons, List.foldlM_cons, hadd _ _ hfirst]
    exact congrArg _ (funext ih)

/-- When the work is done, the copies are added as the schemas are installed. -/
theorem Mirrors.answers_finish (h : Mirrors loader own document [] shelf gathering []) (file : Path) :
    Answers loader ((loader.redirectTree own file).finish own) shelf
      ((install loader.root (document.relocated loader.root file) gathering.schemas).map
        Value.unlabelled) := by
  have hown := h.own_eq.1
  have hredirected := extends_changeTree loader own ((loader.tree own).relocated loader.root file)
  have hself : (loader.redirectTree own file).tree own = document.relocated loader.root file := by
    rw [redirectTree, tree_changeTree_self hown.1, h.own_eq.2]
  have hshelf : (loader.redirectTree own file).shelf = shelf :=
    (shelf_changeTree hown.2 _).trans h.shelf_eq
  have hstored : (loader.redirectTree own file).Stored := fun number hfile => by
    rw [redirectTree, length_changeTree]
    exact h.stored number hfile
  have hcopies : ∀ copy ∈ loader.copies, loader.IsCopy copy.tree := by
    have hschemas := h.schemas
    generalize loader.copies = copies at hschemas
    generalize gathering.schemas = gathered at hschemas
    induction hschemas with
    | nil => simp
    | cons hfirst _ ih => exact List.forall_mem_cons.2 ⟨hfirst.isCopy.1, ih⟩
  have hempty : loader.copies.isEmpty = gathering.schemas.isEmpty := by
    rw [Bool.eq_iff_iff, List.isEmpty_iff_length_eq_zero, List.isEmpty_iff_length_eq_zero,
      h.schemas.length_eq]
  rw [finish, install, ← hempty]
  show Answers loader (if loader.copies.isEmpty = true then _ else _) _ _
  split
  · exact {
      stored := hstored
      shelf_eq := hshelf
      outcome_eq := congrArg (fun v => Except.ok (Value.unlabelled v)) hself
      extended := hredirected
      isCopy := List.forall_mem_cons.2 ⟨hredirected.isCopy hown,
        List.forall_mem_map.2 fun copy hmem => hredirected.isCopy (hcopies copy hmem)⟩ }
  · rw [hself, funext (h.addCopies_eq file)]
    cases hchange : changeSchemas (fun schemas => installAll loader.root schemas gathering.schemas)
        (document.relocated loader.root file) with
    | error fault =>
      exact ⟨hstored, hshelf, rfl, hredirected, by rintro _ ⟨⟩⟩
    | ok bundled =>
      have hlast := hredirected.trans
        (extends_changeTree (loader.redirectTree own file) own bundled)
      have hlt := (hredirected.isCopy hown).1
      exact {
        stored := fun number hfile => by
          rw [length_changeTree]
          exact hstored number hfile
        shelf_eq := (shelf_changeTree (hredirected.isCopy hown).2 _).trans hshelf
        outcome_eq := congrArg (fun v => Except.ok (Value.unlabelled v)) (tree_changeTree_self hlt _)
        extended := hlast
        isCopy := List.forall_mem_cons.2 ⟨hlast.isCopy hown,
          List.forall_mem_map.2 fun copy hmem => hlast.isCopy (hcopies copy hmem)⟩ }

@[simp] theorem root_work (disk : FileTree) (loader : Loader) (allowance : Nat) (chores : List Chore) :
    (loader.work disk allowance chores).2.root = loader.root := by
  fun_induction work disk loader allowance chores <;> first | rfl | assumption

/-- **A loader bundles** as one that has its shelf and nothing else. -/
theorem Stored.answers_bundle (stored : loader.Stored) (disk : FileTree) (root : Path)
    (document : Value) :
    Answers loader (loader.bundle disk root document)
      (SchemaCodecs.bundle disk loader.shelf root document).1
      (SchemaCodecs.bundle disk loader.shelf root document).2.outcome := by
  have hwork := follows_work (budget_first disk loader.shelf root document)
    (stored.mirrors_start root document) rfl
  have hextends := (extends_start loader root document).trans
    (extends_work disk (loader.start root document) (allowanceOf loader.shelf root document)
      ((loader.start root document).chores root loader.trees.length))
  have hroot := root_work disk (loader.start root document)
    (allowanceOf loader.shelf root document)
    ((loader.start root document).chores root loader.trees.length)
  have hshelf : (SchemaCodecs.bundle disk loader.shelf root document).1
      = (gatherFrom disk loader.shelf root document).shelf := rfl
  rw [outcome_bundle, hshelf, bundle, gatherFrom]
  rw [show (loader.start root document).root = root from rfl] at hroot
  generalize (loader.start root document).work disk (allowanceOf loader.shelf root document)
    ((loader.start root document).chores root loader.trees.length) = worked at *
  obtain ⟨result, worked⟩ := worked
  have houtcome := hwork.outcome_eq
  cases hgathered : (gather disk root loader.shelf (allowanceOf loader.shelf root document) {}
      (tasksFor root root document)).outcome with
  | error fault =>
    rw [hgathered] at houtcome
    obtain rfl : result = .error fault := houtcome
    exact ⟨hwork.stored, hwork.shelf_eq, rfl, hextends, by rintro _ ⟨⟩⟩
  | ok gathering =>
    rw [hgathered] at houtcome
    obtain rfl : result = .ok () := houtcome
    have hanswers := (hwork.mirrors gathering hgathered).answers_finish root
    rw [hroot] at hanswers
    exact { hanswers with extended := hextends.trans hanswers.extended }

end Bundling

/-! ## Loading -/

/-- A file is fetched as from the shelf. -/
theorem Stored.fetch (stored : loader.Stored) (disk : FileTree) (file : Path) :
    (∃ fault, loader.shelf.fetch disk file = .error fault ∧
        loader.fetch disk file = (.error fault, loader)) ∨
      ∃ number later, loader.shelf.fetch disk file = .ok (later.tree number, later.shelf) ∧
        loader.fetch disk file = (.ok number, later) ∧ later.Stored ∧ loader.Extends later := by
  rw [Shelf.fetch, find?_shelf, Loader.fetch]
  cases loader.files.lookup file with
  | some number => exact Or.inr ⟨number, loader, rfl, rfl, stored, .refl loader⟩
  | none =>
    cases readDocument disk file with
    | error fault => exact Or.inl ⟨fault, rfl, rfl⟩
    | ok document =>
      refine Or.inr ⟨_, loader.keepFile file document, ?_, rfl, stored.keepFile file document,
        extends_keepFile loader file document⟩
      rw [shelf_keepFile stored, show (loader.keepFile file document).tree loader.trees.length
        = document from tree_addTree_self loader document]
      rfl

/-- **A loader loads** as one that has its shelf and nothing else. -/
theorem Stored.answers_load (stored : loader.Stored) (disk : FileTree) (path : Path) :
    Answers loader (loader.load disk path) (SchemaCodecs.load disk loader.shelf path).1
      (SchemaCodecs.load disk loader.shelf path).2.outcome := by
  rw [load, SchemaCodecs.load]
  cases resolveFile path with
  | error fault => exact ⟨stored, rfl, rfl, .refl loader, by rintro _ ⟨⟩⟩
  | ok root =>
    have hstored : ({ loader with root } : Loader).Stored := stored
    have hfetch := hstored.fetch disk root
    rw [show ({ loader with root } : Loader).shelf = loader.shelf from rfl] at hfetch
    obtain ⟨fault, hshelf, hloader⟩ | ⟨number, later, hshelf, hloader, hlater, hextends⟩ := hfetch
    · simp only [hshelf, hloader, bind, Except.bind]
      exact ⟨stored, rfl, rfl, ⟨Nat.le_refl _, fun _ _ h => h⟩, by rintro _ ⟨⟩⟩
    · have hextends : loader.Extends later := ⟨hextends.1, hextends.2⟩
      simp only [hshelf, hloader, bind, Except.bind, pure, Except.pure]
      cases checkDocument (later.tree number) with
      | error fault => exact ⟨hlater, rfl, rfl, hextends, by rintro _ ⟨⟩⟩
      | ok document =>
        have hanswers := hlater.answers_bundle disk root document
        exact { hanswers with extended := hextends.trans hanswers.extended }

end SchemaCodecs.Loader
