/-
# Copies in a loader

A loader changes trees in place and leaves registrations behind; a shelf and a gathering do neither.
Step by step the two do the same: as long as no chore is left for a copy it reads as the part it was
made from, then as that part with its references redirected, and no tree of a file is ever changed.

* `Loader.Mirrors` : between a loader at work and a gathering with its shelf and tasks;
* `Mirrors.redirect`, `Mirrors.enter` : the steps that change trees keep it up;
* `Loader.Follows` : between what the work and the gathering end in;
* `follows_work` : the work ends as the gathering does.
-/
import SchemaCodecs.Bundle.Loader
import SchemaCodecs.Proofs.Bundle.Search

namespace SchemaCodecs.Loader

variable {loader : Loader} {root : Path}

/-! ## Trees -/

/-- A tree is that of a file. -/
def IsFile (loader : Loader) (number : Nat) : Prop :=
  ∃ entry ∈ loader.files, entry.2 = number

/-- The trees of the files are there. -/
def Stored (loader : Loader) : Prop :=
  ∀ number, loader.IsFile number → number < loader.trees.length

/-- A tree is there that is not that of a file. -/
def IsCopy (loader : Loader) (number : Nat) : Prop :=
  number < loader.trees.length ∧ ¬ loader.IsFile number

@[simp] theorem length_addTree (loader : Loader) (v : Value) :
    (loader.addTree v).trees.length = loader.trees.length + 1 := by
  simp [addTree]

@[simp] theorem length_changeTree (loader : Loader) (number : Nat) (v : Value) :
    (loader.changeTree number v).trees.length = loader.trees.length := by
  simp [changeTree]

@[simp] theorem tree_addTree_self (loader : Loader) (v : Value) :
    (loader.addTree v).tree loader.trees.length = v := by
  simp [addTree, tree]

theorem tree_addTree_of_lt {number : Nat} (h : number < loader.trees.length) (v : Value) :
    (loader.addTree v).tree number = loader.tree number := by
  simp [addTree, tree, List.getElem?_append_left h]

theorem tree_changeTree_self {number : Nat} (h : number < loader.trees.length) (v : Value) :
    (loader.changeTree number v).tree number = v := by
  simp [changeTree, tree, h]

theorem tree_changeTree_of_ne {number other : Nat} (h : number ≠ other) (v : Value) :
    (loader.changeTree number v).tree other = loader.tree other := by
  simp [changeTree, tree, h]

theorem stored_empty : ({} : Loader).Stored := by
  rintro number ⟨entry, ⟨⟩, -⟩

theorem Stored.not_isFile (stored : loader.Stored) : ¬ loader.IsFile loader.trees.length :=
  fun h => Nat.lt_irrefl _ (stored _ h)

/-! ## The shelf -/

/-- A document is found on the shelf of a loader if the tree of its file is there. -/
theorem find?_shelf (loader : Loader) (file : Path) :
    loader.shelf.find? file = (loader.files.lookup file).map loader.tree := by
  rw [Shelf.find?, shelf]
  induction loader.files with
  | nil => rfl
  | cons entry rest ih =>
    obtain ⟨path, number⟩ := entry
    rw [List.map_cons, List.lookup_cons, List.lookup_cons, ih]
    cases file == path <;> rfl

theorem isFile_of_lookup {file : Path} {number : Nat}
    (h : loader.files.lookup file = some number) : loader.IsFile number := by
  obtain ⟨front, back, heq, -⟩ := List.lookup_eq_some_iff.1 h
  exact ⟨(file, number), by rw [heq]; simp, rfl⟩

theorem shelf_congr {other : Loader} (files : other.files = loader.files)
    (trees : ∀ number, loader.IsFile number → other.tree number = loader.tree number) :
    other.shelf = loader.shelf := by
  rw [shelf, shelf, files]
  refine congrArg Shelf.mk (List.map_congr_left fun entry hentry => ?_)
  rw [trees _ ⟨entry, hentry, rfl⟩]

@[simp] theorem shelf_addTree (stored : loader.Stored) (v : Value) :
    (loader.addTree v).shelf = loader.shelf :=
  shelf_congr rfl fun number hfile => tree_addTree_of_lt (stored number hfile) v

theorem shelf_changeTree {number : Nat} (copy : ¬ loader.IsFile number) (v : Value) :
    (loader.changeTree number v).shelf = loader.shelf :=
  shelf_congr rfl fun other hfile => tree_changeTree_of_ne (by rintro rfl; exact copy hfile) v

/-- The document of a file that is read is put on the shelf. -/
theorem shelf_keepFile (stored : loader.Stored) (file : Path) (document : Value) :
    (loader.keepFile file document).shelf = loader.shelf.add file document := by
  have hself : (loader.keepFile file document).tree loader.trees.length = document :=
    tree_addTree_self loader document
  rw [shelf, keepFile, List.map_cons, Shelf.add]
  refine congrArg Shelf.mk (congr (congrArg List.cons (congrArg _ hself)) ?_)
  exact congrArg Shelf.documents (shelf_addTree stored document)

@[simp] theorem isFile_keepFile_iff {file : Path} {document : Value} {number : Nat} :
    (loader.keepFile file document).IsFile number ↔
      number = loader.trees.length ∨ loader.IsFile number := by
  simp [IsFile, keepFile, eq_comm]

theorem Stored.addTree (stored : loader.Stored) (v : Value) : (loader.addTree v).Stored := by
  intro number hfile
  rw [length_addTree]
  exact Nat.lt_succ_of_lt (stored number hfile)

theorem Stored.keepFile (stored : loader.Stored) (file : Path) (document : Value) :
    (loader.keepFile file document).Stored := by
  intro number hfile
  show number < (loader.addTree document).trees.length
  rw [length_addTree]
  rcases isFile_keepFile_iff.1 hfile with rfl | hfile
  · exact Nat.lt_succ_self _
  · exact Nat.lt_succ_of_lt (stored number hfile)

/-! ## Loaders at work -/

/-- The trees that are still to be redirected. -/
def Chore.number? : Chore → Option Nat
  | redirect number _ => some number
  | _ => none

/-- A chore stands for a task. -/
inductive Chore.IsTask : Chore → Task → Prop where
  | follow (base : Path) (ref : Text) : IsTask (.follow base ref) (.follow base ref)
  | redirect (number : Nat) (file : Path) (ref name : Text) :
    IsTask (.redirect number file) (.close ref name)
  | goRound : IsTask .goRound .goRound

/-- A copy is that of a gathered schema: it reads as its source until its references have been
redirected. -/
structure IsSchema (loader : Loader) (own : Nat) (ahead : List Chore) (copy : Copy)
    (schema : Bundled) : Prop where
  /-- The target is the same. -/
  target_eq : schema.target = copy.target
  /-- The schema has the name of the target. -/
  name_eq : schema.name = copy.target.name
  /-- It was copied from the tree of a file. -/
  origin : loader.IsFile copy.origin
  /-- What was copied is the source. -/
  source_eq : loader.source copy = schema.source
  /-- It has a tree of its own, which is not that of the root document. -/
  isCopy : loader.IsCopy copy.tree ∧ copy.tree ≠ own
  /-- As long as it is to be redirected it reads as the source. -/
  waiting : ∀ file, .redirect copy.tree file ∈ ahead →
    file = copy.target.file ∧ loader.tree copy.tree = schema.source
  /-- Afterwards it reads as in the bundled document. -/
  ready : (∀ file, .redirect copy.tree file ∉ ahead) →
    loader.tree copy.tree = schema.source.relocated loader.root copy.target.file

/-- Between a loader at work on a root document, with its chores, and a gathering with its shelf and
tasks. -/
structure Mirrors (loader : Loader) (own : Nat) (document : Value) (ahead : List Chore)
    (shelf : Shelf) (gathering : Gathering) (tasks : List Task) : Prop where
  /-- The trees of the files are there. -/
  stored : loader.Stored
  /-- They are the documents on the shelf. -/
  shelf_eq : loader.shelf = shelf
  /-- The targets are the same. -/
  targets_eq : loader.targets = gathering.targets
  /-- The copies are those of the schemas. -/
  schemas : List.Forall₂ (loader.IsSchema own ahead) loader.copies gathering.schemas
  /-- The chores stand for the tasks. -/
  tasks : List.Forall₂ Chore.IsTask ahead tasks
  /-- What is to be redirected is a copy, once. -/
  copies : ∀ number file, .redirect number file ∈ ahead → loader.IsCopy number
  /-- Nothing is redirected twice. -/
  once : (ahead.filterMap Chore.number?).Nodup
  /-- The copy of the root document is left alone. -/
  own_eq : loader.IsCopy own ∧ loader.tree own = document
  /-- It is not to be redirected yet. -/
  own_notMem : ∀ file, .redirect own file ∉ ahead

/-! ## Sources -/

theorem source_congr {other : Loader} {copy : Copy}
    (h : other.tree copy.origin = loader.tree copy.origin) :
    other.source copy = loader.source copy := by
  rw [source, source, h]

theorem source_eq {copy : Copy} {v : Value}
    (h : (loader.tree copy.origin).partAt? copy.target.pointer = some v) :
    loader.source copy = v := by
  rw [source, (Value.resolveInside_eq_ok_iff _ _ _ _).2 h]
  rfl

section Steps

variable {own number : Nat} {document : Value} {ahead rest : List Chore} {shelf : Shelf}
  {gathering : Gathering} {tasks : List Task}

/-- A chore that changes no tree is done. -/
theorem Mirrors.skip {chore : Chore} {task : Task}
    (h : Mirrors loader own document (chore :: rest) shelf gathering (task :: tasks))
    (plain : chore.number? = none) : Mirrors loader own document rest shelf gathering tasks where
  stored := h.stored
  shelf_eq := h.shelf_eq
  targets_eq := h.targets_eq
  schemas := by
    have hne : ∀ n file, chore ≠ .redirect n file := by
      rintro n file rfl
      cases plain
    refine h.schemas.imp fun copy schema hcopy => { hcopy with
      waiting := fun file hmem => hcopy.waiting file (List.mem_cons_of_mem _ hmem)
      ready := fun hnone => hcopy.ready fun file hmem => ?_ }
    rcases List.mem_cons.1 hmem with heq | hmem
    · exact hne _ _ heq.symm
    · exact hnone file hmem
  tasks := by
    cases h.tasks with
    | cons _ hrest => exact hrest
  copies n file hmem := h.copies n file (List.mem_cons_of_mem _ hmem)
  once := by
    have honce := h.once
    rwa [List.filterMap_cons_none plain] at honce
  own_eq := h.own_eq
  own_notMem file hmem := h.own_notMem file (List.mem_cons_of_mem _ hmem)

/-- A copy is redirected. -/
theorem Mirrors.redirect {file : Path} {task : Task}
    (h : Mirrors loader own document (.redirect number file :: rest) shelf gathering (task :: tasks)) :
    Mirrors (loader.redirectTree number file) own document rest shelf gathering tasks := by
  have hcopy := h.copies number file List.mem_cons_self
  have hnew : ∀ other, .redirect number other ∉ rest := by
    intro other hmem
    have honce : (number :: rest.filterMap Chore.number?).Nodup := h.once
    exact (List.nodup_cons.1 honce).1 (List.mem_filterMap.2 ⟨_, hmem, rfl⟩)
  have hne : number ≠ own := fun heq => h.own_notMem file (heq ▸ List.mem_cons_self)
  have hkept : ∀ other, number ≠ other →
      (loader.redirectTree number file).tree other = loader.tree other :=
    fun other hother => tree_changeTree_of_ne hother _
  have hcopies : ∀ other, loader.IsCopy other → (loader.redirectTree number file).IsCopy other :=
    fun other hother => ⟨by rw [redirectTree, length_changeTree]; exact hother.1, hother.2⟩
  exact {
    stored := fun other hfile => by
      rw [redirectTree, length_changeTree]
      exact h.stored other hfile
    shelf_eq := (shelf_changeTree hcopy.2 _).trans h.shelf_eq
    targets_eq := h.targets_eq
    schemas := by
      refine h.schemas.imp fun copy schema hschema => ?_
      have hsource : (loader.redirectTree number file).source copy = loader.source copy :=
        source_congr (hkept _ fun heq => hcopy.2 (heq.symm ▸ hschema.origin))
      refine { hschema with
        source_eq := hsource.trans hschema.source_eq
        isCopy := ⟨hcopies _ hschema.isCopy.1, hschema.isCopy.2⟩
        waiting := fun other hmem => ?_
        ready := fun hnone => ?_ }
      · obtain ⟨hfile, htree⟩ := hschema.waiting other (List.mem_cons_of_mem _ hmem)
        exact ⟨hfile, (hkept _ fun heq => hnew other (heq.symm ▸ hmem)).trans htree⟩
      · by_cases heq : number = copy.tree
        · subst heq
          obtain ⟨rfl, htree⟩ := hschema.waiting file List.mem_cons_self
          rw [redirectTree, tree_changeTree_self hcopy.1, htree]
          rfl
        · refine (hkept _ heq).trans (hschema.ready fun other hmem => ?_)
          rcases List.mem_cons.1 hmem with hfirst | hmem
          · exact heq (Chore.redirect.inj hfirst).1.symm
          · exact hnone other hmem
    tasks := by
      cases h.tasks with
      | cons _ hrest => exact hrest
    copies := fun other path hmem => hcopies _ (h.copies other path (List.mem_cons_of_mem _ hmem))
    once := by
      have honce : (number :: rest.filterMap Chore.number?).Nodup := h.once
      exact (List.nodup_cons.1 honce).2
    own_eq := ⟨hcopies _ h.own_eq.1, (hkept own hne).trans h.own_eq.2⟩
    own_notMem := fun path hmem => h.own_notMem path (List.mem_cons_of_mem _ hmem) }

/-- The document of a file is read. -/
theorem Mirrors.keepFile (h : Mirrors loader own document ahead shelf gathering tasks) (file : Path)
    (read : Value) :
    Mirrors (loader.keepFile file read) own document ahead (shelf.add file read) gathering tasks := by
  have hkept : ∀ number < loader.trees.length,
      (loader.keepFile file read).tree number = loader.tree number :=
    fun number hlt => tree_addTree_of_lt hlt read
  have hcopy : ∀ number, loader.IsCopy number → (loader.keepFile file read).IsCopy number := by
    rintro number ⟨hlt, hfile⟩
    refine ⟨?_, fun hnew => ?_⟩
    · show number < (loader.addTree read).trees.length
      rw [length_addTree]
      exact Nat.lt_succ_of_lt hlt
    · rcases isFile_keepFile_iff.1 hnew with rfl | hold
      · exact Nat.lt_irrefl _ hlt
      · exact hfile hold
  exact { h with
    stored := h.stored.keepFile file read
    shelf_eq := by rw [shelf_keepFile h.stored, h.shelf_eq]
    schemas := h.schemas.imp fun copy schema hschema => {
      target_eq := hschema.target_eq
      name_eq := hschema.name_eq
      origin := isFile_keepFile_iff.2 (Or.inr hschema.origin)
      source_eq := (source_congr (hkept _ (h.stored _ hschema.origin))).trans hschema.source_eq
      isCopy := ⟨hcopy _ hschema.isCopy.1, hschema.isCopy.2⟩
      waiting := fun path hmem =>
        (hschema.waiting path hmem).imp_right (hkept _ hschema.isCopy.1.1).trans
      ready := fun hnone => (hkept _ hschema.isCopy.1.1).trans (hschema.ready hnone) }
    copies := fun number path hmem => hcopy _ (h.copies number path hmem)
    own_eq := ⟨hcopy _ h.own_eq.1, (hkept _ h.own_eq.1.1).trans h.own_eq.2⟩ }

/-- Copies and schemas of the same names are put at the same places. -/
theorem forall₂_putCopy {R : Copy → Bundled → Prop} {copy : Copy} {schema : Bundled}
    {copies : List Copy} {schemas : List Bundled}
    (names : ∀ copy schema, R copy schema → schema.name = copy.target.name)
    (h : List.Forall₂ R copies schemas) (new : R copy schema) :
    List.Forall₂ R (putCopy copy copies) (Gathering.putSchema schema schemas) := by
  induction h with
  | nil => exact .cons new .nil
  | cons hfirst hrest ih =>
    rw [putCopy, Gathering.putSchema, names _ _ hfirst, names _ _ new]
    split
    · exact .cons new hrest
    · exact .cons hfirst ih

/-- The chores for a tree stand for the tasks for the value that it holds. -/
theorem forall₂_chores (loader : Loader) (base : Path) (number : Nat) :
    List.Forall₂ Chore.IsTask (loader.chores base number)
      (tasksFor loader.root base (loader.tree number)) := by
  rw [chores, tasksFor]
  refine List.rel_append ?_ ?_
  · rw [List.forall₂_map_left_iff, List.forall₂_map_right_iff, List.forall₂_same]
    exact fun ref _ => .follow base ref
  · split
    · exact .cons .goRound .nil
    · exact .nil

@[simp] theorem redirect_notMem_chores (loader : Loader) (base file : Path) (number other : Nat) :
    Chore.redirect other file ∉ loader.chores base number := by
  rw [chores, List.mem_append]
  split <;> simp

@[simp] theorem filterMap_chores (loader : Loader) (base : Path) (number : Nat) :
    (loader.chores base number).filterMap Chore.number? = [] := by
  rw [chores, List.filterMap_append, List.filterMap_map]
  split <;> simp [Chore.number?, Function.comp_def]

section Registering

variable {target : Target} {found : Value}

@[simp] theorem tree_register_self :
    (loader.register target number found).tree loader.trees.length = found :=
  tree_addTree_self loader found

theorem tree_register_of_lt {other : Nat} (h : other < loader.trees.length) :
    (loader.register target number found).tree other = loader.tree other :=
  tree_addTree_of_lt h found

theorem IsCopy.register {other : Nat} (h : loader.IsCopy other) :
    (loader.register target number found).IsCopy other :=
  ⟨(length_addTree loader found) ▸ Nat.lt_succ_of_lt h.1, h.2⟩

/-- The part of a new target is copied to a new tree. -/
theorem isCopy_register (stored : loader.Stored) :
    (loader.register target number found).IsCopy loader.trees.length :=
  ⟨(length_addTree loader found) ▸ Nat.lt_succ_self _, stored.not_isFile⟩

/-- Of the chores that a target brings, only the last one redirects a tree, its copy. -/
theorem redirect_mem_enter_iff {other : Nat} {path : Path} :
    .redirect other path ∈ (loader.enter target number found).2 ++ rest ↔
      (other = loader.trees.length ∧ path = target.file) ∨ .redirect other path ∈ rest := by
  rw [Loader.enter, List.mem_append, List.mem_append,
    or_iff_right (redirect_notMem_chores _ _ _ _ _)]
  simp

/-- A copy remains that of its schema when another target is registered. -/
theorem IsSchema.enter {base : Path} {ref : Text} {copy : Copy} {schema : Bundled}
    (h : loader.IsSchema own (.follow base ref :: rest) copy schema) (stored : loader.Stored) :
    (loader.register target number found).IsSchema own
      ((loader.enter target number found).2 ++ rest) copy schema := by
  have hkept := @tree_register_of_lt loader number target found _ h.isCopy.1.1
  refine { h with
    source_eq := (source_congr (tree_register_of_lt (stored _ h.origin))).trans h.source_eq
    isCopy := ⟨h.isCopy.1.register, h.isCopy.2⟩
    waiting := fun path hmem => ?_
    ready := fun hnone => ?_ }
  · obtain ⟨heq, -⟩ | hmem := redirect_mem_enter_iff.1 hmem
    · exact absurd heq (Nat.ne_of_lt h.isCopy.1.1)
    · exact (h.waiting path (List.mem_cons_of_mem _ hmem)).imp_right hkept.trans
  · refine hkept.trans (h.ready fun path hmem => ?_)
    rcases List.mem_cons.1 hmem with hfirst | hmem
    · cases hfirst
    · exact hnone path (redirect_mem_enter_iff.2 (Or.inr hmem))

/-- The new copy is that of the new schema; it has still to be redirected. -/
theorem isSchema_register (stored : loader.Stored) (file : loader.IsFile number)
    (part : (loader.tree number).partAt? target.pointer = some found)
    (hne : loader.trees.length ≠ own)
    (below : ∀ other path, .redirect other path ∈ rest → other < loader.trees.length) :
    (loader.register target number found).IsSchema own
      ((loader.enter target number found).2 ++ rest) ⟨target, number, loader.trees.length⟩
      ⟨target.name, target, found⟩ where
  target_eq := rfl
  name_eq := rfl
  origin := file
  source_eq := by
    have htree := @tree_register_of_lt loader number target found _ (stored _ file)
    exact source_eq (htree ▸ part)
  isCopy := ⟨isCopy_register stored, hne⟩
  waiting path hmem := by
    obtain ⟨-, rfl⟩ | hmem := redirect_mem_enter_iff.1 hmem
    · exact ⟨rfl, tree_register_self⟩
    · exact absurd (below _ _ hmem) (Nat.lt_irrefl _)
  ready hnone := absurd (redirect_mem_enter_iff.2 (Or.inl ⟨rfl, rfl⟩)) (hnone target.file)

/-- A part of a file is copied for a new target. -/
theorem Mirrors.enter {base : Path} {ref : Text}
    (h : Mirrors loader own document (.follow base ref :: rest) shelf gathering
      (.follow base ref :: tasks))
    (file : loader.IsFile number) (part : (loader.tree number).partAt? target.pointer = some found) :
    Mirrors (loader.enter target number found).1 own document
      ((loader.enter target number found).2 ++ rest) shelf (gathering.extend target found)
      (tasksFor loader.root target.file found ++ .close ref target.name :: tasks) := by
  have hne : loader.trees.length ≠ own := (Nat.ne_of_lt h.own_eq.1.1).symm
  have below : ∀ other path, .redirect other path ∈ rest → other < loader.trees.length :=
    fun other path hmem => (h.copies other path (List.mem_cons_of_mem _ hmem)).1
  exact {
    stored := h.stored.addTree found
    shelf_eq := (shelf_addTree h.stored found).trans h.shelf_eq
    targets_eq := congrArg (target :: ·) h.targets_eq
    schemas := forall₂_putCopy (fun _ _ hschema => hschema.name_eq)
      (h.schemas.imp fun _ _ hschema => hschema.enter h.stored)
      (isSchema_register h.stored file part hne below)
    tasks := by
      have hchores := forall₂_chores (loader.register target number found) target.file
        loader.trees.length
      rw [tree_register_self] at hchores
      rw [Loader.enter, List.append_assoc]
      refine List.rel_append hchores (.cons (.redirect _ _ _ _) ?_)
      cases h.tasks with
      | cons _ hrest => exact hrest
    copies := fun other path hmem => by
      obtain ⟨rfl, -⟩ | hmem := redirect_mem_enter_iff.1 hmem
      · exact isCopy_register h.stored
      · exact (h.copies other path (List.mem_cons_of_mem _ hmem)).register
    once := by
      rw [Loader.enter, List.filterMap_append, List.filterMap_append, filterMap_chores]
      refine List.nodup_cons.2 ⟨fun hmem => ?_, h.once⟩
      obtain ⟨chore, hchore, hnumber⟩ := List.mem_filterMap.1 hmem
      cases chore with
      | redirect other path =>
        cases hnumber
        exact Nat.lt_irrefl _ (below _ _ hchore)
      | _ => cases hnumber
    own_eq := ⟨h.own_eq.1.register, (tree_register_of_lt h.own_eq.1.1).trans h.own_eq.2⟩
    own_notMem := fun path hmem => by
      obtain ⟨heq, -⟩ | hmem := redirect_mem_enter_iff.1 hmem
      · exact hne heq.symm
      · exact h.own_notMem path (List.mem_cons_of_mem _ hmem) }

end Registering

/-- Under a name there is a copy where there is a schema, and it is the copy of that schema. -/
theorem Mirrors.find?_copies (h : Mirrors loader own document ahead shelf gathering tasks)
    (name : Text) :
    ((loader.copies.find? fun copy => copy.target.name == name) = none ∧
        gathering.find? name = none) ∨
      ∃ copy schema, (loader.copies.find? fun copy => copy.target.name == name) = some copy ∧
        gathering.find? name = some schema ∧ loader.IsSchema own ahead copy schema := by
  have hschemas := h.schemas
  rw [Gathering.find?]
  generalize loader.copies = copies at hschemas
  generalize gathering.schemas = schemas at hschemas
  induction hschemas with
  | nil => exact Or.inl ⟨rfl, rfl⟩
  | @cons copy schema _ _ hfirst _ ih =>
    rw [List.find?_cons, List.find?_cons, hfirst.name_eq]
    cases copy.target.name == name with
    | true => exact Or.inr ⟨copy, schema, rfl, rfl, hfirst⟩
    | false => exact ih

/-- A part is copied, or refused, as a target is taken in. -/
theorem Mirrors.part_eq (h : Mirrors loader own document ahead shelf gathering tasks) (target : Target)
    (number : Nat) (ref : Text) :
    loader.part target number ref
      = (gathering.takeIn target ref (loader.tree number)).map Prod.fst := by
  rw [part, Gathering.takeIn]
  cases Reference.resolveInside (loader.tree number) target.pointer ref with
  | error fault => rfl
  | ok found =>
    simp only [bind, Except.bind]
    obtain ⟨hcopy, hnone⟩ | ⟨copy, schema, hcopy, hsome, hschema⟩ := h.find?_copies target.name
    · have hagrees : gathering.conflicts target.name found = false := by
        rw [Gathering.conflicts, hnone]
      rw [hcopy, hagrees]
      rfl
    · have hconflicts : gathering.conflicts target.name found = !schema.source.equals found := by
        rw [Gathering.conflicts, hsome]
      have hconflict : gathering.conflict target.name found
          = schema.source.difference found (.conflicting target.name) := by
        rw [Gathering.conflict, hsome]
      rw [hcopy, hconflicts, hconflict]
      simp only [hschema.source_eq]
      cases schema.source.equals found <;> rfl

end Steps

/-! ## The work -/

/-- What a loader's work ends in, and what a gathering ends in: both succeed, and the loader has the
copies of the schemas; or both fail with the same fault.  The documents that are kept are the same. -/
structure Follows (own : Nat) (document : Value) (worked : Except Fault Unit × Loader)
    (gathered : Gathered) : Prop where
  /-- The trees of the files are there. -/
  stored : worked.2.Stored
  /-- They are the documents on the shelf. -/
  shelf_eq : worked.2.shelf = gathered.shelf
  /-- The outcomes correspond. -/
  outcome_eq : worked.1 = gathered.outcome.map fun _ => ()
  /-- Every schema that was gathered has its copy. -/
  mirrors : ∀ gathering, gathered.outcome = .ok gathering →
    Mirrors worked.2 own document [] gathered.shelf gathering []

section Working

variable {disk : FileTree} {own allowance : Nat} {document : Value} {ahead : List Chore}
  {gathering : Gathering} {tasks : List Task} {first shelf : Shelf}

/-- Work that fails at once follows a gathering that does. -/
theorem Mirrors.fails (h : Mirrors loader own document ahead shelf gathering tasks) (fault : Fault) :
    Follows own document (.error fault, loader) { shelf, outcome := .error fault } where
  stored := h.stored
  shelf_eq := h.shelf_eq
  outcome_eq := rfl
  mirrors := by rintro _ ⟨⟩

section Equations

variable {base : Path} {ref : Text} {rest : List Chore} {target : Target}

theorem work_of_error {fault : Fault} (means : meaning loader.root base ref = .error fault) :
    loader.work disk allowance (.follow base ref :: rest) = (.error fault, loader) := by
  rw [work]
  split <;> simp_all

/-- A reference that stays in the root document or leads to a known target is passed. -/
theorem work_of_passes (passes : Passes loader.root loader.targets base ref) :
    loader.work disk allowance (.follow base ref :: rest) = loader.work disk allowance rest := by
  obtain ⟨meant, means, known⟩ := passes
  rw [work]
  split <;> simp_all

/-- The work after the tree of the file of a new target is there: the part is copied, or it ends the
work. -/
def goInto (disk : FileTree) (loader : Loader) (allowance : Nat) (target : Target) (number : Nat)
    (ref : Text) (rest : List Chore) : Except Fault Unit × Loader :=
  match loader.part target number ref with
  | .error fault => (.error fault, loader)
  | .ok part => (loader.enter target number part).1.work disk allowance
      ((loader.enter target number part).2 ++ rest)

/-- A target in a file that has been read is gone into. -/
theorem work_of_found {number : Nat} (means : meaning loader.root base ref = .ok (.external target))
    (new : target ∉ loader.targets) (found : loader.files.lookup target.file = some number) :
    loader.work disk (allowance + 1) (.follow base ref :: rest)
      = loader.goInto disk allowance target number ref rest := by
  rw [work]
  split
  · simp_all
  · simp_all
  · simp_all
  · next other hother =>
    obtain rfl : target = other := by simpa [means] using hother
    rw [if_neg (by simpa using new)]
    split
    · next tree htree =>
      obtain rfl := Option.some.inj (found.symm.trans htree)
      rfl
    · simp_all

/-- A file that cannot be read ends the work. -/
theorem work_of_unread {fault : Fault} (means : meaning loader.root base ref = .ok (.external target))
    (new : target ∉ loader.targets) (missing : loader.files.lookup target.file = none)
    (unread : readDocument disk target.file = .error fault) :
    loader.work disk allowance (.follow base ref :: rest) = (.error fault, loader) := by
  rw [work]
  split
  · simp_all
  · simp_all
  · simp_all
  · next other hother =>
    obtain rfl : target = other := by simpa [means] using hother
    rw [if_neg (by simpa using new)]
    split
    · simp_all
    · split <;> simp_all

/-- A target in a file that is read now is gone into. -/
theorem work_of_read {read : Value} (means : meaning loader.root base ref = .ok (.external target))
    (new : target ∉ loader.targets) (missing : loader.files.lookup target.file = none)
    (hread : readDocument disk target.file = .ok read) :
    loader.work disk allowance (.follow base ref :: rest)
      = (loader.keepFile target.file read).goInto disk
          (allowance + allowanceFor target.file read) target loader.trees.length ref rest := by
  rw [work]
  split
  · simp_all
  · simp_all
  · simp_all
  · next other hother =>
    obtain rfl : target = other := by simpa [means] using hother
    rw [if_neg (by simpa using new)]
    split
    · simp_all
    · split
      · simp_all
      · next other hother =>
        obtain rfl := Except.ok.inj (hread.symm.trans hother)
        rfl

end Equations

theorem Mirrors.find?_eq (h : Mirrors loader own document ahead shelf gathering tasks) (file : Path) :
    shelf.find? file = (loader.files.lookup file).map loader.tree := by
  rw [← h.shelf_eq, find?_shelf]

/-- A chore for a reference is there where a task for one is. -/
theorem exists_follow_of_isTask {base : Path} {ref : Text} {rest : List Task}
    (h : List.Forall₂ Chore.IsTask ahead (.follow base ref :: rest)) :
    ∃ others, ahead = .follow base ref :: others := by
  cases h with
  | cons hfirst _ =>
    cases hfirst
    exact ⟨_, rfl⟩

section GoInto

variable {base : Path} {ref : Text} {target : Target} {number : Nat} {rest : List Chore}
  {found : Value}

/-- A target that is refused ends the work and the gathering. -/
theorem Mirrors.goInto_of_error
    (h : Mirrors loader own document ahead shelf gathering tasks) (htree : loader.tree number = found)
    {fault : Fault} (refused : gathering.takeIn target ref found = .error fault) :
    Follows own document (loader.goInto disk allowance target number ref rest)
      { shelf, outcome := .error fault } := by
  rw [goInto, h.part_eq, htree, refused]
  exact h.fails fault

/-- The part of a target that is taken in is copied. -/
theorem Mirrors.goInto_of_ok {source : Value} {next : Gathering}
    (h : Mirrors loader own document (.follow base ref :: rest) shelf gathering
      (.follow base ref :: tasks))
    (file : loader.IsFile number) (htree : loader.tree number = found)
    (taken : gathering.takeIn target ref found = .ok (source, next)) :
    loader.goInto disk allowance target number ref rest
        = (loader.enter target number source).1.work disk allowance
            ((loader.enter target number source).2 ++ rest) ∧
      Mirrors (loader.enter target number source).1 own document
        ((loader.enter target number source).2 ++ rest) shelf next
        (tasksFor loader.root target.file source ++ .close ref target.name :: tasks) := by
  obtain ⟨part, -, rfl⟩ := (Gathering.takeIn_eq_ok_iff _ _ _ _ _ _).1 taken
  refine ⟨?_, h.enter file (htree.symm ▸ part)⟩
  rw [goInto, h.part_eq, htree, taken]
  rfl

end GoInto

/-- **The work of a loader** ends as the gathering does, with the same documents kept. -/
theorem follows_work (budget : Budget disk first root document shelf allowance gathering tasks)
    (h : Mirrors loader own document ahead shelf gathering tasks) (hroot : loader.root = root) :
    Follows own document (loader.work disk allowance ahead)
      (gather disk root shelf allowance gathering tasks) := by
  -- The induction follows the gathering; the loader does the first of its chores in each case.
  fun_induction gather disk root shelf allowance gathering tasks generalizing loader ahead with
  | case1 shelf allowance gathering =>
    obtain rfl := List.forall₂_nil_right_iff.1 h.tasks
    rw [work]
    exact ⟨h.stored, h.shelf_eq, rfl, by rintro _ ⟨⟩; exact h⟩
  | case2 shelf allowance gathering ref name rest ih =>
    obtain ⟨chore, others, hfirst, -, rfl⟩ := List.forall₂_cons_right_iff.1 h.tasks
    cases hfirst
    rw [work]
    have hnext := ih budget.skip h.redirect hroot
    exact ⟨hnext.stored, hnext.shelf_eq, hnext.outcome_eq, hnext.mirrors⟩
  | case3 shelf allowance gathering rest =>
    obtain ⟨chore, others, hfirst, -, rfl⟩ := List.forall₂_cons_right_iff.1 h.tasks
    cases hfirst
    rw [work]
    exact h.fails .endless
  | case4 shelf allowance gathering base ref rest fault means =>
    obtain ⟨others, rfl⟩ := exists_follow_of_isTask h.tasks
    rw [work_of_error (hroot ▸ means)]
    exact h.fails fault
  | case5 shelf allowance gathering base ref rest means ih =>
    obtain ⟨others, rfl⟩ := exists_follow_of_isTask h.tasks
    rw [work_of_passes (hroot ▸ passes_of_inside means (by simp))]
    exact ih budget.skip (h.skip rfl) hroot
  | case6 shelf allowance gathering base ref rest pointer means ih =>
    obtain ⟨others, rfl⟩ := exists_follow_of_isTask h.tasks
    rw [work_of_passes (hroot ▸ passes_of_inside means (by simp))]
    exact ih budget.skip (h.skip rfl) hroot
  | case7 shelf allowance gathering base ref rest target means mem ih =>
    obtain ⟨others, rfl⟩ := exists_follow_of_isTask h.tasks
    have hmem : target ∈ loader.targets := h.targets_eq ▸ List.contains_iff_mem.1 mem
    rw [work_of_passes (hroot ▸ passes_of_known means hmem)]
    exact ih budget.skip (h.skip rfl) hroot
  | case8 shelf allowance gathering base ref rest target means notMem document' found fault refused =>
    rw [List.contains_iff_mem] at notMem
    obtain ⟨others, rfl⟩ := exists_follow_of_isTask h.tasks
    obtain ⟨number, hnumber, htree⟩ := Option.map_eq_some_iff.1 ((h.find?_eq _).symm.trans found)
    obtain ⟨allowance, rfl⟩ := Nat.exists_eq_succ_of_ne_zero (budget.pos means notMem).ne'
    rw [work_of_found (hroot ▸ means) (h.targets_eq ▸ notMem) hnumber]
    exact h.goInto_of_error htree refused
  | case9 shelf gathering base ref rest target means notMem =>
    -- The allowance is used up, which the budget rules out.
    have := budget.pos means fun hmem => notMem (List.contains_iff_mem.2 hmem)
    omega
  | case10 shelf gathering base ref rest target means followUp notMem document' found source next
      taken allowance =>
    rename_i ih
    rw [List.contains_iff_mem] at notMem
    obtain ⟨others, rfl⟩ := exists_follow_of_isTask h.tasks
    obtain ⟨number, hnumber, htree⟩ := Option.map_eq_some_iff.1 ((h.find?_eq _).symm.trans found)
    obtain ⟨part, -, hnext⟩ := (Gathering.takeIn_eq_ok_iff _ _ _ _ _ _).1 taken
    obtain ⟨hwork, hmirrors⟩ := h.goInto_of_ok (isFile_of_lookup hnumber) htree taken
    rw [work_of_found (hroot ▸ means) (h.targets_eq ▸ notMem) hnumber, hwork]
    subst hroot hnext
    exact ih (budget.onShelf means notMem found part) hmirrors rfl
  | case11 shelf allowance gathering base ref rest target means notMem missing fault unread =>
    rw [List.contains_iff_mem] at notMem
    obtain ⟨others, rfl⟩ := exists_follow_of_isTask h.tasks
    have hlookup := Option.map_eq_none_iff.1 ((h.find?_eq _).symm.trans missing)
    rw [work_of_unread (hroot ▸ means) (h.targets_eq ▸ notMem) hlookup unread]
    exact h.fails fault
  | case12 shelf allowance gathering base ref rest target means notMem missing document' read fault
      refused =>
    rw [List.contains_iff_mem] at notMem
    obtain ⟨others, rfl⟩ := exists_follow_of_isTask h.tasks
    have hlookup := Option.map_eq_none_iff.1 ((h.find?_eq _).symm.trans missing)
    rw [work_of_read (hroot ▸ means) (h.targets_eq ▸ notMem) hlookup read]
    exact (h.keepFile target.file document').goInto_of_error (tree_addTree_self _ _) refused
  | case13 shelf allowance gathering base ref rest target means followUp notMem missing document'
      read source next taken _ =>
    rename_i ih
    rw [List.contains_iff_mem] at notMem
    obtain ⟨others, rfl⟩ := exists_follow_of_isTask h.tasks
    have hlookup := Option.map_eq_none_iff.1 ((h.find?_eq _).symm.trans missing)
    obtain ⟨part, -, hnext⟩ := (Gathering.takeIn_eq_ok_iff _ _ _ _ _ _).1 taken
    obtain ⟨hwork, hmirrors⟩ := (h.keepFile target.file document').goInto_of_ok
      (isFile_keepFile_iff.2 (Or.inl rfl)) (tree_addTree_self _ _) taken
    rw [work_of_read (hroot ▸ means) (h.targets_eq ▸ notMem) hlookup read, hwork]
    subst hroot hnext
    exact ih (budget.read means notMem (documentAt_of_read missing read) part) hmirrors rfl

end Working

end SchemaCodecs.Loader
