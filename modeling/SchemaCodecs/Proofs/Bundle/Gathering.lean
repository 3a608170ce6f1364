/-
# Gathering as a derivation

What following references gathers, without the shelf and the allowance that the search carries
along: a reference that stays in the root document or leads to a known target adds nothing, any
other one adds its target and the references in its source.  The allowance never ends a search,
because every target that is taken in is one of those that the references of a document lead to.

* `Gathers` : the derivations;
* `Gathers.preserves` : what every new target keeps, a derivation keeps;
* `Budget` : the allowance covers the targets that references can still lead to.
-/
import SchemaCodecs.Bundle.Load
import SchemaCodecs.Proofs.Bundle.Repetition
import SchemaCodecs.Proofs.Bundle.Source

namespace SchemaCodecs

/-! ## Derivations -/

namespace Gathering

/-- A gathering with one more target. -/
def extend (gathering : Gathering) (target : Target) (source : Value) : Gathering :=
  { targets := target :: gathering.targets
    schemas := putSchema ⟨target.name, target, source⟩ gathering.schemas }

/-- A target is taken in when its pointer selects a part that does not conflict. -/
theorem takeIn_eq_ok_iff (gathering : Gathering) (target : Target) (ref : Text)
    (document source : Value) (next : Gathering) :
    gathering.takeIn target ref document = .ok (source, next) ↔
      document.partAt? target.pointer = some source ∧
        gathering.conflicts target.name source = false ∧
          next = gathering.extend target source := by
  rw [← Value.resolveInside_eq_ok_iff document target.pointer ref, takeIn]
  cases hpart : Reference.resolveInside document target.pointer ref with
  | error fault => simp [bind, Except.bind]
  | ok part =>
    simp only [bind, Except.bind, Except.ok.injEq]
    cases hconflict : gathering.conflicts target.name part with
    | true =>
      simp only [if_true, throw, throwThe, MonadExceptOf.throw]
      constructor
      · intro h
        cases h
      · rintro ⟨rfl, hnone, -⟩
        rw [hconflict] at hnone
        cases hnone
    | false =>
      simp only [pure, Except.pure, extend]
      constructor
      · intro h
        cases h
        exact ⟨rfl, hconflict, rfl⟩
      · rintro ⟨rfl, -, rfl⟩
        rfl

end Gathering

/-- What is gathered by carrying out tasks, for the documents of a tree and a shelf. -/
inductive Gathers (tree : FileTree) (shelf : Shelf) (root : Path) :
    Gathering → List Task → Gathering → Prop where
  /-- Nothing is left to do. -/
  | done (gathering : Gathering) : Gathers tree shelf root gathering [] gathering
  /-- A report adds nothing. -/
  | close {gathering final : Gathering} {rest : List Task} (ref name : Text)
      (next : Gathers tree shelf root gathering rest final) :
    Gathers tree shelf root gathering (.close ref name :: rest) final
  /-- A reference that means itself or a part of the root document adds nothing. -/
  | stay {gathering final : Gathering} {rest : List Task} {base : Path} {ref : Text}
      {meant : Meaning} (means : meaning root base ref = .ok meant)
      (inside : ∀ target, meant ≠ .external target)
      (next : Gathers tree shelf root gathering rest final) :
    Gathers tree shelf root gathering (.follow base ref :: rest) final
  /-- A reference to a known target adds nothing. -/
  | known {gathering final : Gathering} {rest : List Task} {base : Path} {ref : Text}
      {target : Target} (means : meaning root base ref = .ok (.external target))
      (mem : target ∈ gathering.targets) (next : Gathers tree shelf root gathering rest final) :
    Gathers tree shelf root gathering (.follow base ref :: rest) final
  /-- A reference to a new target adds the target and the references in its source. -/
  | new {gathering final : Gathering} {rest : List Task} {base : Path} {ref : Text}
      {target : Target} {source : Value} (means : meaning root base ref = .ok (.external target))
      (notMem : target ∉ gathering.targets)
      (denotes : sourceAt? tree shelf target = some source)
      (agrees : gathering.conflicts target.name source = false)
      (next : Gathers tree shelf root (gathering.extend target source)
        (tasksFor root target.file source ++ .close ref target.name :: rest) final) :
    Gathers tree shelf root gathering (.follow base ref :: rest) final

/-- A reference stays in the root document or leads to a known target. -/
def Passes (root : Path) (known : List Target) (base : Path) (ref : Text) : Prop :=
  ∃ meant, meaning root base ref = .ok meant ∧ ∀ target, meant = .external target → target ∈ known

section Deriving

variable {tree : FileTree} {shelf : Shelf} {root base : Path} {gathering final : Gathering}
  {tasks rest : List Task} {known : List Target} {ref : Text}

theorem passes_of_inside {meant : Meaning} (means : meaning root base ref = .ok meant)
    (inside : ∀ target, meant ≠ .external target) : Passes root known base ref :=
  ⟨meant, means, fun target heq => absurd heq (inside target)⟩

/-- A reference to a known target is passed. -/
theorem passes_of_known {target : Target} (means : meaning root base ref = .ok (.external target))
    (mem : target ∈ known) : Passes root known base ref := by
  refine ⟨_, means, ?_⟩
  rintro other ⟨⟩
  exact mem

/-- A reference that is passed adds nothing. -/
theorem Gathers.pass (passes : Passes root gathering.targets base ref)
    (next : Gathers tree shelf root gathering rest final) :
    Gathers tree shelf root gathering (.follow base ref :: rest) final := by
  obtain ⟨meant, means, known⟩ := passes
  by_cases hexternal : ∃ target, meant = .external target
  · obtain ⟨target, rfl⟩ := hexternal
    exact .known means (known target rfl) next
  · exact .stay means (fun target htarget => hexternal ⟨target, htarget⟩) next

/-- **What new targets keep.**  A derivation keeps every fact about what is gathered that new targets
keep. -/
theorem Gathers.preserves {P : Gathering → Prop}
    (h : Gathers tree shelf root gathering tasks final)
    (hextend : ∀ (gathering : Gathering) (target : Target) (source : Value),
      target.file.IsPlain → sourceAt? tree shelf target = some source →
        gathering.conflicts target.name source = false → P gathering →
          P (gathering.extend target source))
    (first : P gathering) : P final := by
  induction h with
  | done _ => exact first
  | close _ _ _ ih => exact ih first
  | stay _ _ _ ih => exact ih first
  | known _ _ _ ih => exact ih first
  | new means _ denotes agrees _ ih =>
    exact ih (hextend _ _ _ (isPlain_of_meaning means) denotes agrees first)

end Deriving

/-! ## The targets within reach -/

/-- The targets that the references of a document lead to, however often they are redirected. -/
def targetsOf (root file : Path) (document : Value) : List Target :=
  document.allRefs.flatMap (targetsAlong root file)

/-- The targets that the references of a document and of all documents on a shelf lead to. -/
def targetsInReach (shelf : Shelf) (root : Path) (document : Value) : List Target :=
  targetsOf root root document ++
    shelf.documents.flatMap fun entry => targetsOf root entry.1 entry.2

/-- A document that is put on the shelf only adds targets. -/
theorem targetsInReach_add (shelf : Shelf) (root file : Path) (document added : Value) :
    targetsInReach shelf root document ⊆ targetsInReach (shelf.add file added) root document := by
  intro target htarget
  rw [targetsInReach, List.mem_append] at htarget ⊢
  rcases htarget with htarget | htarget
  · exact Or.inl htarget
  · refine Or.inr ?_
    rw [Shelf.add, List.flatMap_cons]
    exact List.mem_append_right _ htarget

/-- The references of a document lead to no more targets than it is allowed. -/
theorem length_targetsOf_le (root file : Path) (document : Value) :
    (targetsOf root file document).length ≤ allowanceFor file document := by
  rw [targetsOf, allowanceFor]
  induction document.allRefs with
  | nil => exact Nat.le_refl 0
  | cons ref rest ih =>
    rw [List.flatMap_cons, List.length_append, List.foldr_cons]
    exact Nat.add_le_add (length_targetsAlong_le root file ref) ih

/-- There are no more targets within reach than the documents are allowed. -/
theorem length_targetsInReach_le (shelf : Shelf) (root : Path) (document : Value) :
    (targetsInReach shelf root document).length ≤ allowanceOf shelf root document := by
  rw [targetsInReach, List.length_append, allowanceOf]
  refine Nat.add_le_add (length_targetsOf_le root root document) ?_
  induction shelf.documents with
  | nil => exact Nat.le_refl 0
  | cons entry rest ih =>
    rw [List.flatMap_cons, List.length_append, List.foldr_cons]
    exact Nat.add_le_add (length_targetsOf_le root entry.1 entry.2) ih

/-- A document that is put on the shelf adds what it is allowed. -/
theorem allowanceOf_add (shelf : Shelf) (root file : Path) (document added : Value) :
    allowanceOf (shelf.add file added) root document
      = allowanceOf shelf root document + allowanceFor file added := by
  rw [allowanceOf, allowanceOf, Shelf.add, List.foldr_cons]
  show allowanceFor root document + (allowanceFor file added + _) = _
  omega

/-! ## The allowance suffices -/

/-- Between a search and the documents it goes through: the documents are those of the first shelf,
and the allowance covers all targets within reach that have not been taken in. -/
structure Budget (tree : FileTree) (first : Shelf) (root : Path) (document : Value)
    (shelf : Shelf) (allowance : Nat) (gathering : Gathering) (tasks : List Task) : Prop where
  /-- Files have the documents that they had at first. -/
  documents : documentAt tree shelf = documentAt tree first
  /-- No target is taken in twice. -/
  nodup : gathering.targets.Nodup
  /-- What has been taken in and what may still be add up. -/
  enough : allowanceOf shelf root document ≤ allowance + gathering.targets.length
  /-- Targets are taken in because of references in documents. -/
  taken : gathering.targets ⊆ targetsInReach shelf root document
  /-- References that are still to be followed stand in documents. -/
  ahead : ∀ base ref target, .follow base ref ∈ tasks →
    meaning root base ref = .ok (.external target) → target ∈ targetsInReach shelf root document

theorem mem_documents_of_find? {shelf : Shelf} {file : Path} {document : Value}
    (h : shelf.find? file = some document) : (file, document) ∈ shelf.documents := by
  obtain ⟨front, back, heq, -⟩ := List.lookup_eq_some_iff.1 h
  rw [heq]
  exact List.mem_append_right _ List.mem_cons_self

@[simp] theorem follow_mem_tasksFor_iff {root base file : Path} {v : Value} {ref : Text} :
    Task.follow base ref ∈ tasksFor root file v ↔ base = file ∧ ref ∈ v.refsMet root file := by
  have honly : Task.follow base ref ∉ if v.isEndless then [Task.goRound] else [] := by
    split <;> simp
  rw [tasksFor, List.mem_append, or_iff_left honly, List.mem_map]
  constructor
  · rintro ⟨other, hother, heq⟩
    obtain ⟨rfl, rfl⟩ := Task.follow.inj heq
    exact ⟨rfl, hother⟩
  · rintro ⟨rfl, href⟩
    exact ⟨ref, href, rfl⟩

@[simp] theorem goRound_mem_tasksFor_iff {root file : Path} {v : Value} :
    Task.goRound ∈ tasksFor root file v ↔ v.isEndless = true := by
  rw [tasksFor, List.mem_append, or_iff_right (by simp)]
  split <;> simp_all

/-- The tasks that a target brings with it are for the references in its source; the others follow. -/
theorem follow_mem_append_iff {root base : Path} {target : Target} {source : Value}
    {name ref inner : Text} {rest : List Task} :
    Task.follow base inner ∈ tasksFor root target.file source ++ .close ref name :: rest ↔
      (base = target.file ∧ inner ∈ source.refsMet root target.file) ∨
        Task.follow base inner ∈ rest := by
  rw [List.mem_append, List.mem_cons, follow_mem_tasksFor_iff]
  simp

/-- A task for a reference that is met in a part of a document has one of the targets that the
references of the document lead to. -/
theorem mem_targetsOf_of_task {root file : Path} {document source : Value} {ref : Text}
    {target : Target} (hfile : file ≠ root → file.IsPlain) (hrefs : source.allRefs ⊆ document.allRefs)
    (hmem : Task.follow file ref ∈ tasksFor root file source)
    (means : meaning root file ref = .ok (.external target)) :
    target ∈ targetsOf root file document := by
  obtain ⟨-, hmet⟩ := follow_mem_tasksFor_iff.1 hmem
  obtain ⟨site, hsite, k, rfl⟩ := exists_iterate_of_mem_refsMet hmet
  exact List.mem_flatMap.2
    ⟨site.ref, hrefs (Value.ref_mem_allRefs site hsite), mem_targetsAlong hfile means⟩

/-- The references in a part of a document are within reach once the document is on the shelf. -/
theorem mem_targetsInReach_of_part {shelf : Shelf} {root file : Path} {document : Value}
    {other source : Value} {pointer ref : Text} {target : Target} (plain : file.IsPlain)
    (onShelf : shelf.find? file = some other) (part : other.partAt? pointer = some source)
    (hmem : Task.follow file ref ∈ tasksFor root file source)
    (means : meaning root file ref = .ok (.external target)) :
    target ∈ targetsInReach shelf root document := by
  rw [targetsInReach, List.mem_append, List.mem_flatMap]
  refine Or.inr ⟨(file, other), mem_documents_of_find? onShelf, ?_⟩
  exact mem_targetsOf_of_task (fun _ => plain) (Value.allRefs_part part) hmem means

section Spending

variable {tree : FileTree} {first shelf : Shelf} {root base : Path} {document other source : Value}
  {allowance : Nat} {gathering : Gathering} {ref : Text} {rest : List Task} {target : Target}

/-- Carrying out a task that adds nothing leaves the budget as it is. -/
theorem Budget.skip {task : Task}
    (h : Budget tree first root document shelf allowance gathering (task :: rest)) :
    Budget tree first root document shelf allowance gathering rest :=
  { h with
    ahead := fun base ref target hmem => h.ahead base ref target (List.mem_cons_of_mem _ hmem) }

/-- A new target is paid for. -/
theorem Budget.pos
    (h : Budget tree first root document shelf allowance gathering (.follow base ref :: rest))
    (means : meaning root base ref = .ok (.external target))
    (notMem : target ∉ gathering.targets) : 0 < allowance := by
  have hsub : target :: gathering.targets ⊆ targetsInReach shelf root document :=
    List.cons_subset.2 ⟨h.ahead base ref target List.mem_cons_self means, h.taken⟩
  have hlength := ((List.nodup_cons.2 ⟨notMem, h.nodup⟩).subperm hsub).length_le
  have hreach := length_targetsInReach_le shelf root document
  have henough := h.enough
  rw [List.length_cons] at hlength
  omega

/-- Taking in a target of a document on the shelf keeps within the budget. -/
theorem Budget.extend {next : Shelf} {allowance' : Nat}
    (h : Budget tree first root document shelf allowance gathering (.follow base ref :: rest))
    (means : meaning root base ref = .ok (.external target))
    (notMem : target ∉ gathering.targets)
    (hdocuments : documentAt tree next = documentAt tree shelf)
    (hreach : targetsInReach shelf root document ⊆ targetsInReach next root document)
    (henough : allowanceOf next root document ≤ allowance' + (gathering.targets.length + 1))
    (onShelf : next.find? target.file = some other)
    (part : other.partAt? target.pointer = some source) :
    Budget tree first root document next allowance' (gathering.extend target source)
      (tasksFor root target.file source ++ .close ref target.name :: rest) where
  documents := hdocuments.trans h.documents
  nodup := List.nodup_cons.2 ⟨notMem, h.nodup⟩
  enough := henough
  taken := List.cons_subset.2
    ⟨hreach (h.ahead base ref target List.mem_cons_self means), fun _ ht => hreach (h.taken ht)⟩
  ahead := by
    intro base' ref' target' hmem means'
    rcases follow_mem_append_iff.1 hmem with ⟨rfl, hinner⟩ | hmem
    · exact mem_targetsInReach_of_part (isPlain_of_meaning means) onShelf part
        (follow_mem_tasksFor_iff.2 ⟨rfl, hinner⟩) means'
    · exact hreach (h.ahead base' ref' target' (List.mem_cons_of_mem _ hmem) means')

/-- Taking in a target of a document on the shelf costs one. -/
theorem Budget.onShelf
    (h : Budget tree first root document shelf (allowance + 1) gathering
      (.follow base ref :: rest))
    (means : meaning root base ref = .ok (.external target)) (notMem : target ∉ gathering.targets)
    (found : shelf.find? target.file = some other)
    (part : other.partAt? target.pointer = some source) :
    Budget tree first root document shelf allowance (gathering.extend target source)
      (tasksFor root target.file source ++ .close ref target.name :: rest) := by
  have henough := h.enough
  exact h.extend means notMem rfl (List.Subset.refl _) (by omega) found part

/-- Taking in a target of a document that is read adds what the document is allowed. -/
theorem Budget.read
    (h : Budget tree first root document shelf allowance gathering (.follow base ref :: rest))
    (means : meaning root base ref = .ok (.external target)) (notMem : target ∉ gathering.targets)
    (hread : documentAt tree shelf target.file = .ok other)
    (part : other.partAt? target.pointer = some source) :
    Budget tree first root document (shelf.add target.file other)
      (allowance + allowanceFor target.file other) (gathering.extend target source)
      (tasksFor root target.file source ++ .close ref target.name :: rest) := by
  refine h.extend means notMem (documentAt_add hread) (targetsInReach_add _ _ _ _ _) ?_
    List.lookup_cons_self part
  have henough := h.enough
  rw [allowanceOf_add]
  omega

end Spending

/-- What a root document can lead to is allowed at first. -/
theorem budget_first (tree : FileTree) (shelf : Shelf) (root : Path) (document : Value) :
    Budget tree shelf root document shelf (allowanceOf shelf root document) {}
      (tasksFor root root document) where
  documents := rfl
  nodup := List.nodup_nil
  enough := Nat.le_refl _
  taken := List.nil_subset _
  ahead := by
    intro base ref target hmem means
    obtain rfl : root = base := (follow_mem_tasksFor_iff.1 hmem).1.symm
    have hroot : root ≠ root → root.IsPlain := fun hne => absurd rfl hne
    rw [targetsInReach, List.mem_append]
    exact Or.inl (mem_targetsOf_of_task hroot (List.Subset.refl _) hmem means)

/-! ## Files without aliases -/

/-- Every file that can be read, along the plain path to it, has a document without labels. -/
def AliasFreeFiles (tree : FileTree) (shelf : Shelf) : Prop :=
  ∀ file document, file.IsPlain → documentAt tree shelf file = .ok document → document.AliasFree

/-- No file has aliases if none of the entries of a tree has. -/
theorem aliasFreeFiles_of_entries {tree : FileTree}
    (h : ∀ entry ∈ tree.entries, ∀ document, readDocument tree entry.1 = .ok document →
      document.AliasFree) : AliasFreeFiles tree {} := by
  intro file document plain hdocument
  have hread : readDocument tree file = .ok document := hdocument
  obtain ⟨entry, hentry, rfl⟩ := exists_entry_of_readDocument hread plain
  exact h entry hentry document hread

end SchemaCodecs
