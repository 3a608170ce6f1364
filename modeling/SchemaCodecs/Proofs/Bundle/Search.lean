/-
# The search as a walk

The search for the targets of a document takes the turns of a walk and keeps the documents of the
files that are consulted on the way, those of the new targets that the walk comes to.  It ends as
the walk does, so every walk from a root document comes to an end.

* `Consults` : the files of the new targets that a walk comes to;
* `Searches` : taking the turns of a walk and keeping the documents of these files;
* `searches_gather` : the search does so;
* `gatherFrom_outcome_eq_ok_iff` : it succeeds exactly along derivations;
* `bundle_ends` : bundling comes to an end.
-/
import SchemaCodecs.Proofs.Bundle.Walk

namespace SchemaCodecs

/-! ## Consulting a file -/

/-- The file that the next task of a trail takes a new target from. -/
def Trail.fileAhead? (root : Path) : Trail → Option Path
  | ⟨gathering, .follow base ref :: _⟩ =>
    match meaning root base ref with
    | .ok (.external target) => if target ∈ gathering.targets then none else some target.file
    | _ => none
  | _ => none

section Consulting

variable (tree : FileTree) (shelf : Shelf) (root : Path)

/-- The walk from a trail comes to a new target in a file. -/
def Consults (trail : Trail) (file : Path) : Prop :=
  ∃ entered last, Walk tree shelf root trail entered last ∧ last.fileAhead? root = some file

variable {tree shelf root}

/-- The file ahead is that of a reference to a new target. -/
theorem fileAhead?_eq_some_iff (trail : Trail) (file : Path) :
    trail.fileAhead? root = some file ↔
      ∃ gathering base ref rest target, trail = ⟨gathering, .follow base ref :: rest⟩ ∧
        meaning root base ref = .ok (.external target) ∧ target ∉ gathering.targets ∧
          target.file = file := by
  constructor
  · intro h
    unfold Trail.fileAhead? at h
    split at h
    · next gathering base ref rest =>
      split at h
      · next target means =>
        split at h
        · cases h
        · next notMem =>
          exact ⟨gathering, base, ref, rest, target, rfl, means, notMem, Option.some.inj h⟩
      · cases h
    · cases h
  · rintro ⟨gathering, base, ref, rest, target, rfl, means, notMem, rfl⟩
    simp only [Trail.fileAhead?, means, if_neg notMem]

/-- The file of a reference to a new target is ahead. -/
theorem fileAhead?_of_new {gathering : Gathering} {base : Path} {ref : Text} {rest : List Task}
    {target : Target} (means : meaning root base ref = .ok (.external target))
    (notMem : target ∉ gathering.targets) :
    Trail.fileAhead? root ⟨gathering, .follow base ref :: rest⟩ = some target.file :=
  (fileAhead?_eq_some_iff _ _).2 ⟨gathering, base, ref, rest, target, rfl, means, notMem, rfl⟩

/-- A task that adds nothing consults no file. -/
theorem fileAhead?_of_past {trail next : Trail} (h : trail.turn tree shelf root = .past next) :
    trail.fileAhead? root = none := by
  cases Trail.takes_iff.2 h with
  | close gathering ref name rest => rfl
  | @pass gathering base ref passes rest =>
    obtain ⟨meant, means, known⟩ := passes
    rw [Option.eq_none_iff_forall_ne_some]
    intro file hfile
    obtain ⟨_, _, _, _, target, heq, means', notMem, -⟩ := (fileAhead?_eq_some_iff _ file).1 hfile
    cases heq
    exact notMem (known target (Except.ok.inj (means.symm.trans means')))

/-- A task that adds a target consults the file of the target. -/
theorem fileAhead?_of_into {trail next : Trail} {target : Target}
    (h : trail.turn tree shelf root = .into target next) :
    trail.fileAhead? root = some target.file := by
  cases Trail.takes_iff.2 h with
  | new means notMem denotes agrees rest => exact fileAhead?_of_new means notMem

/-- A walk consults the file of the next task and those after the next turn. -/
theorem consults_iff (trail : Trail) (file : Path) :
    Consults tree shelf root trail file ↔
      trail.fileAhead? root = some file ∨
        ∃ next, Trail.Leads tree shelf root trail next ∧ Consults tree shelf root next file := by
  constructor
  · rintro ⟨entered, last, walk, hlast⟩
    cases walk with
    | here => exact Or.inl hlast
    | past turn_eq walk => exact Or.inr ⟨_, Or.inl turn_eq, _, last, walk, hlast⟩
    | into turn_eq walk => exact Or.inr ⟨_, Or.inr ⟨_, turn_eq⟩, _, last, walk, hlast⟩
  · rintro (hlast | ⟨next, hpast | ⟨target, hinto⟩, entered, last, walk, hlast⟩)
    · exact ⟨[], trail, .here trail, hlast⟩
    · exact ⟨entered, last, .past hpast walk, hlast⟩
    · exact ⟨target :: entered, last, .into hinto walk, hlast⟩

/-- Before a turn that adds nothing the same files are consulted as after it. -/
theorem consults_of_past {trail next : Trail} (h : trail.turn tree shelf root = .past next)
    (file : Path) :
    Consults tree shelf root trail file ↔ Consults tree shelf root next file := by
  rw [consults_iff trail, fileAhead?_of_past h]
  simp [Trail.Leads, h]

/-- Before a turn that adds a target its file is consulted too. -/
theorem consults_of_into {trail next : Trail} {target : Target}
    (h : trail.turn tree shelf root = .into target next) (file : Path) :
    Consults tree shelf root trail file ↔
      target.file = file ∨ Consults tree shelf root next file := by
  rw [consults_iff trail, fileAhead?_of_into h]
  simp [Trail.Leads, h]

/-- Where the next task is refused, only its file is consulted. -/
theorem consults_of_refused {trail : Trail} {fault : Fault}
    (h : trail.turn tree shelf root = .refused fault) (file : Path) :
    Consults tree shelf root trail file ↔ trail.fileAhead? root = some file := by
  rw [consults_iff trail]
  simp [Trail.Leads, h]

/-- Where no task remains, no file is consulted. -/
theorem not_consults_of_finished {trail : Trail} (h : trail.turn tree shelf root = .finished)
    (file : Path) : ¬ Consults tree shelf root trail file := by
  rw [consults_iff trail]
  rintro (hahead | ⟨next, hpast | ⟨target, hinto⟩, -⟩)
  · cases Trail.takes_iff.2 h with
    | finished gathering => cases hahead
  · simp [h] at hpast
  · simp [h] at hinto

theorem Consults.isPlain {trail : Trail} {file : Path} (h : Consults tree shelf root trail file) :
    file.IsPlain := by
  obtain ⟨entered, last, -, hlast⟩ := h
  obtain ⟨_, _, _, _, target, -, means, -, rfl⟩ := (fileAhead?_eq_some_iff last file).1 hlast
  exact isPlain_of_meaning means

end Consulting

/-! ## Searches -/

section Shelves

variable {tree : FileTree} {shelf : Shelf}

theorem documentAt_of_find? {file : Path} {document : Value}
    (h : shelf.find? file = some document) : documentAt tree shelf file = .ok document := by
  rw [documentAt, h]

theorem documentAt_of_read {file : Path} {document : Value} (missing : shelf.find? file = none)
    (read : readDocument tree file = .ok document) : documentAt tree shelf file = .ok document := by
  rw [documentAt, missing, read]

/-- What is found on a shelf after a document has been put on it as it is read. -/
theorem find?_add_iff {file other : Path} {document found : Value}
    (h : documentAt tree shelf file = .ok document) :
    (shelf.add file document).find? other = some found ↔
      shelf.find? other = some found ∨ file = other ∧ documentAt tree shelf other = .ok found := by
  rw [Shelf.find?, Shelf.add, List.lookup_cons]
  by_cases hfile : other = file
  · subst hfile
    simp only [beq_self_eq_true, h, Except.ok.injEq, Option.some.injEq, true_and]
    exact ⟨Or.inr, fun hor => hor.elim
      (fun hfind => Except.ok.inj (h.symm.trans (documentAt_of_find? hfind))) id⟩
  · rw [beq_eq_false_iff_ne.2 hfile]
    exact ⟨Or.inl, fun hor => hor.resolve_right fun hand => hfile hand.1.symm⟩

end Shelves

section Searching

variable (tree : FileTree) (first : Shelf) (root : Path)

/-- One shelf holds what another one does and the document of the file ahead, if it has one. -/
def Trail.Shelves (trail : Trail) (shelf shelf' : Shelf) : Prop :=
  ∀ file found, shelf'.find? file = some found ↔
    shelf.find? file = some found ∨
      trail.fileAhead? root = some file ∧ documentAt tree first file = .ok found

/-- A search takes the turns of a walk and puts the documents of the files that are consulted on the
shelf; it ends with a shelf and in what was gathered or in a fault. -/
inductive Searches : Shelf → Trail → Shelf → Except Fault Gathering → Prop where
  /-- No task remains. -/
  | finished {shelf : Shelf} {trail : Trail} (turn_eq : trail.turn tree first root = .finished) :
    Searches shelf trail shelf (.ok trail.gathering)
  /-- The next task is refused. -/
  | refused {shelf shelf' : Shelf} {trail : Trail} {fault : Fault}
      (turn_eq : trail.turn tree first root = .refused fault)
      (shelves : trail.Shelves tree first root shelf shelf') :
    Searches shelf trail shelf' (.error fault)
  /-- The next turn adds nothing. -/
  | past {shelf last : Shelf} {trail next : Trail} {outcome : Except Fault Gathering}
      (turn_eq : trail.turn tree first root = .past next)
      (search : Searches shelf next last outcome) :
    Searches shelf trail last outcome
  /-- The next turn goes into a target. -/
  | into {shelf shelf' last : Shelf} {trail next : Trail} {target : Target}
      {outcome : Except Fault Gathering} (turn_eq : trail.turn tree first root = .into target next)
      (shelves : trail.Shelves tree first root shelf shelf')
      (search : Searches shelf' next last outcome) :
    Searches shelf trail last outcome

variable {tree first root}

/-- A search ends as the walk does. -/
theorem Searches.ends {shelf last : Shelf} {trail : Trail} {outcome : Except Fault Gathering}
    (h : Searches tree first root shelf trail last outcome) :
    Ends tree first root trail outcome := by
  induction h with
  | finished turn_eq => exact .finished turn_eq
  | refused turn_eq _ => exact .refused turn_eq
  | past turn_eq _ ih => exact .past turn_eq ih
  | into turn_eq _ _ ih => exact .into turn_eq ih

/-- After a search the shelf holds what it held before and the documents of the files that the walk
consults. -/
theorem Searches.find?_iff {shelf last : Shelf} {trail : Trail} {outcome : Except Fault Gathering}
    (h : Searches tree first root shelf trail last outcome) (file : Path) (found : Value) :
    last.find? file = some found ↔
      shelf.find? file = some found ∨
        Consults tree first root trail file ∧ documentAt tree first file = .ok found := by
  induction h with
  | finished turn_eq =>
    have hnone := not_consults_of_finished turn_eq file
    exact ⟨Or.inl, fun h => h.resolve_right fun hand => hnone hand.1⟩
  | refused turn_eq shelves =>
    rw [shelves, consults_of_refused turn_eq]
  | past turn_eq _ ih => rw [ih, consults_of_past turn_eq]
  | into turn_eq shelves _ ih =>
    rw [ih, shelves, consults_of_into turn_eq, fileAhead?_of_into turn_eq, Option.some.injEq,
      or_assoc, ← or_and_right]

/-- A file that is ahead and has a document on the shelf adds nothing to it. -/
theorem shelves_of_found {shelf : Shelf} {trail : Trail}
    (documents : documentAt tree shelf = documentAt tree first) {file : Path} {document : Value}
    (ahead : trail.fileAhead? root = some file) (found : shelf.find? file = some document) :
    trail.Shelves tree first root shelf shelf := by
  intro other value
  refine ⟨Or.inl, fun h => h.elim id fun hand => ?_⟩
  obtain rfl := Option.some.inj (ahead.symm.trans hand.1)
  rw [← documents, documentAt_of_find? found] at hand
  rw [found, Except.ok.inj hand.2]

/-- A file that is ahead and is read is put on the shelf. -/
theorem shelves_of_read {shelf : Shelf} {trail : Trail}
    (documents : documentAt tree shelf = documentAt tree first) {file : Path} {document : Value}
    (ahead : trail.fileAhead? root = some file)
    (read : documentAt tree first file = .ok document) :
    trail.Shelves tree first root shelf (shelf.add file document) := by
  intro other value
  rw [find?_add_iff (documents ▸ read), ahead, Option.some.injEq, documents]

theorem shelves_of_none {shelf : Shelf} {trail : Trail}
    (ahead : ∀ file document, trail.fileAhead? root = some file →
      documentAt tree first file ≠ .ok document) :
    trail.Shelves tree first root shelf shelf :=
  fun file found => ⟨Or.inl, fun h => h.resolve_right fun hand => ahead file found hand.1 hand.2⟩

section Steps

variable {shelf shelf' last : Shelf} {gathering next : Gathering} {base : Path} {ref : Text}
  {rest tasks : List Task} {target : Target} {document source : Value} {fault : Fault}
  {outcome : Except Fault Gathering}

/-- A search ends at a new target that its document does not let it take in. -/
theorem searches_of_refused (means : meaning root base ref = .ok (.external target))
    (notMem : target ∉ gathering.targets)
    (hdocument : documentAt tree first target.file = .ok document)
    (refused : gathering.takeIn target ref document = .error fault)
    (shelves : Trail.Shelves tree first root ⟨gathering, .follow base ref :: rest⟩ shelf shelf') :
    Searches tree first root shelf ⟨gathering, .follow base ref :: rest⟩ shelf' (.error fault) := by
  refine .refused (turn_of_refused means notMem ?_) shelves
  rw [hdocument]
  exact refused

/-- A search goes on from a new target that is taken in from its document. -/
theorem searches_of_taken (means : meaning root base ref = .ok (.external target))
    (notMem : target ∉ gathering.targets)
    (hdocument : documentAt tree first target.file = .ok document)
    (taken : gathering.takeIn target ref document = .ok (source, next))
    (shelves : Trail.Shelves tree first root ⟨gathering, .follow base ref :: rest⟩ shelf shelf')
    (search : Searches tree first root shelf'
      ⟨next, tasksFor root target.file source ++ .close ref target.name :: rest⟩ last outcome) :
    Searches tree first root shelf ⟨gathering, .follow base ref :: rest⟩ last outcome := by
  refine .into (turn_of_taken means notMem ?_) shelves search
  rw [hdocument]
  exact taken

end Steps

/-- A search within its budget takes the turns of the walk. -/
theorem searches_gather {shelf : Shelf} {document : Value} {allowance : Nat}
    {gathering : Gathering} {tasks : List Task}
    (budget : Budget tree first root document shelf allowance gathering tasks) :
    Searches tree first root shelf ⟨gathering, tasks⟩
      (gather tree root shelf allowance gathering tasks).shelf
      (gather tree root shelf allowance gathering tasks).outcome := by
  -- The induction follows the search; each of its cases is a turn.
  fun_induction gather tree root shelf allowance gathering tasks with
  | case1 shelf allowance gathering => exact .finished rfl
  | case2 shelf allowance gathering ref name rest ih => exact .past rfl (ih budget.skip)
  | case3 shelf allowance gathering rest =>
    exact .refused rfl (shelves_of_none fun file _ ahead => by cases ahead)
  | case4 shelf allowance gathering base ref rest fault means =>
    refine .refused (turn_of_error means) (shelves_of_none fun file _ ahead => ?_)
    simp [Trail.fileAhead?, means] at ahead
  | case5 shelf allowance gathering base ref rest means ih =>
    exact .past (turn_of_passes (passes_of_inside means (by simp))) (ih budget.skip)
  | case6 shelf allowance gathering base ref rest pointer means ih =>
    exact .past (turn_of_passes (passes_of_inside means (by simp))) (ih budget.skip)
  | case7 shelf allowance gathering base ref rest target means mem ih =>
    rw [List.contains_iff_mem] at mem
    exact .past (turn_of_passes (passes_of_known means mem)) (ih budget.skip)
  | case8 shelf allowance gathering base ref rest target means notMem document' found fault refused =>
    rw [List.contains_iff_mem] at notMem
    exact searches_of_refused means notMem (budget.documents ▸ documentAt_of_find? found) refused
      (shelves_of_found budget.documents (fileAhead?_of_new means notMem) found)
  | case9 shelf gathering base ref rest target means notMem =>
    -- The allowance is used up, which the budget rules out.
    have := budget.pos means fun hmem => notMem (List.contains_iff_mem.2 hmem)
    omega
  | case10 shelf gathering base ref rest target means followUp notMem document' found source next
      taken allowance ih =>
    rw [List.contains_iff_mem] at notMem
    obtain ⟨part, -, rfl⟩ := (Gathering.takeIn_eq_ok_iff _ _ _ _ _ _).1 taken
    exact searches_of_taken means notMem (budget.documents ▸ documentAt_of_find? found) taken
      (shelves_of_found budget.documents (fileAhead?_of_new means notMem) found)
      (ih (budget.onShelf means notMem found part))
  | case11 shelf allowance gathering base ref rest target means notMem missing fault unread =>
    rw [List.contains_iff_mem] at notMem
    have hfault : documentAt tree first target.file = .error fault := by
      rw [← budget.documents, documentAt, missing, unread]
    refine .refused (turn_of_refused means notMem ?_) (shelves_of_none fun file document ahead => ?_)
    · rw [hfault]
      rfl
    · obtain rfl := Option.some.inj ((fileAhead?_of_new means notMem).symm.trans ahead)
      simp [hfault]
  | case12 shelf allowance gathering base ref rest target means notMem missing document' read fault
      refused =>
    rw [List.contains_iff_mem] at notMem
    have hdocument := budget.documents ▸ documentAt_of_read missing read
    exact searches_of_refused means notMem hdocument refused
      (shelves_of_read budget.documents (fileAhead?_of_new means notMem) hdocument)
  | case13 shelf allowance gathering base ref rest target means followUp notMem missing document'
      read source next taken _ ih =>
    rw [List.contains_iff_mem] at notMem
    obtain ⟨part, -, rfl⟩ := (Gathering.takeIn_eq_ok_iff _ _ _ _ _ _).1 taken
    have hread := documentAt_of_read missing read
    have hdocument := budget.documents ▸ hread
    exact searches_of_taken means notMem hdocument taken
      (shelves_of_read budget.documents (fileAhead?_of_new means notMem) hdocument)
      (ih (budget.read means notMem hread part))

end Searching

/-! ## Bundling and loading -/

theorem ends_gatherFrom (tree : FileTree) (shelf : Shelf) (root : Path) (document : Value) :
    Ends tree shelf root (.start root document) (gatherFrom tree shelf root document).outcome :=
  (searches_gather (budget_first tree shelf root document)).ends

/-- **Results of the search.**  Gathering from a root document succeeds exactly along derivations. -/
theorem gatherFrom_outcome_eq_ok_iff {tree : FileTree} {shelf : Shelf} {root : Path}
    {document : Value} (final : Gathering) :
    (gatherFrom tree shelf root document).outcome = .ok final ↔
      Gathers tree shelf root {} (tasksFor root root document) final := by
  have hends := ends_gatherFrom tree shelf root document
  constructor
  · intro h
    rw [h] at hends
    exact ends_ok_iff.1 hends
  · exact fun h => hends.unique (ends_ok_iff.2 h)

/-- If trails of two root documents take turns of the same kind, what is gathered from them is in
step. -/
theorem gatherFrom_lockstep {tree tree' : FileTree} {shelf shelf' : Shelf} {root root' : Path}
    {document document' : Value} {R : Trail → Trail → Prop}
    (turns : ∀ trail other, R trail other →
      (trail.turn tree shelf root).Matches R Eq (other.turn tree' shelf' root'))
    (first : R (.start root document) (.start root' document')) :
    InStep (fun gathering gathering' => R ⟨gathering, []⟩ ⟨gathering', []⟩)
      (gatherFrom tree shelf root document).outcome
      (gatherFrom tree' shelf' root' document').outcome := by
  obtain ⟨outcome, hends, hstep⟩ :=
    Ends.lockstep turns first (ends_gatherFrom tree shelf root document)
  rwa [(ends_gatherFrom tree' shelf' root' document').unique hends]

/-- The bundled document is made from what was gathered. -/
theorem outcome_bundle (tree : FileTree) (shelf : Shelf) (root : Path) (document : Value) :
    (bundle tree shelf root document).2.outcome
      = (gatherFrom tree shelf root document).outcome.bind fun gathering =>
          (install root (document.relocated root root) gathering.schemas).map Value.unlabelled := by
  simp only [bundle, Traced.outcome_bind, Traced.note]
  rfl

/-- The bundled document does not change when a document is put on the shelf as it is read. -/
theorem outcome_bundle_add {tree : FileTree} {shelf : Shelf} {file : Path} {read : Value}
    (h : documentAt tree shelf file = .ok read) (root : Path) (document : Value) :
    (bundle tree (shelf.add file read) root document).2.outcome
      = (bundle tree shelf root document).2.outcome := by
  have hturns : Trail.turn tree (shelf.add file read) root = Trail.turn tree shelf root := by
    funext trail
    simp only [Trail.turn, documentAt_add h]
  have hends := (ends_gatherFrom tree (shelf.add file read) root document).congr hturns
  rw [outcome_bundle, outcome_bundle, hends.unique (ends_gatherFrom tree shelf root document)]

/-- The file that a path means is named by a plain path. -/
theorem isPlain_of_resolveFile {path file : Path} (h : resolveFile path = .ok file) :
    file.IsPlain := by
  unfold resolveFile at h
  split at h
  · cases h
  · cases h
    exact Path.isPlain_plain path

/-- A document is loaded in stages: its file is found and read, unless that was done before, the
document is accepted and bundled. -/
theorem outcome_load_shelf (tree : FileTree) (shelf : Shelf) (path : Path) :
    (load tree shelf path).2.outcome = (do
      let file ← resolveFile path
      let document ← documentAt tree shelf file
      let accepted ← checkDocument document
      (bundle tree shelf file accepted).2.outcome) := by
  cases hfile : resolveFile path with
  | error fault =>
    simp only [load, hfile, bind, Except.bind]
    rfl
  | ok file =>
    cases hfind : shelf.find? file with
    | some document =>
      simp only [load, documentAt, hfile, bind, Except.bind, Shelf.fetch, hfind, pure, Except.pure]
      cases checkDocument document <;> rfl
    | none =>
      cases hread : readDocument tree file with
      | error fault =>
        simp only [load, documentAt, hfile, bind, Except.bind, Shelf.fetch, hfind, hread]
        rfl
      | ok document =>
        have hdocument : documentAt tree shelf file = .ok document := by
          rw [documentAt, hfind, hread]
        simp only [load, hdocument, hfile, bind, Except.bind, Shelf.fetch, hfind, hread, pure,
          Except.pure]
        cases checkDocument document with
        | error fault => rfl
        | ok accepted => exact outcome_bundle_add hdocument file accepted

/-- A document of a tree of which nothing has been read is loaded in stages. -/
theorem outcome_load (tree : FileTree) (path : Path) :
    (load tree {} path).2.outcome = (do
      let file ← resolveFile path
      let document ← readDocument tree file
      let accepted ← checkDocument document
      (bundle tree {} file accepted).2.outcome) :=
  outcome_load_shelf tree {} path

/-- A document that is found, read and accepted is loaded if the schemas that are gathered from it can
be installed. -/
theorem outcome_load_of_ok {tree : FileTree} {path file : Path} {document : Value}
    (hfile : resolveFile path = .ok file) (hread : readDocument tree file = .ok document)
    (hcheck : checkDocument document = .ok document) :
    (load tree {} path).2.outcome
      = (gatherFrom tree {} file document).outcome.bind fun gathering =>
          (install file (document.relocated file file) gathering.schemas).map Value.unlabelled := by
  rw [← outcome_bundle, outcome_load]
  simp only [hfile, hread, hcheck, bind, Except.bind]

/-- **Bundling comes to an end.**  No walk from a root document goes on for ever; it ends in what was
gathered or in a fault, from which the bundled document is made.  No walk goes into a target twice,
or into one in the root document. -/
theorem bundle_ends (tree : FileTree) (shelf : Shelf) (root : Path) (document : Value) :
    Acc (fun next trail => Trail.Leads tree shelf root trail next) (.start root document) ∧
      (∃ outcome, Ends tree shelf root (.start root document) outcome ∧
        (bundle tree shelf root document).2.outcome = outcome.bind fun gathering =>
          (install root (document.relocated root root) gathering.schemas).map Value.unlabelled) ∧
      ∀ entered last, Walk tree shelf root (.start root document) entered last →
        entered.Nodup ∧ ∀ target ∈ entered, target.file ≠ root := by
  have hends := ends_gatherFrom tree shelf root document
  refine ⟨hends.acc, ⟨_, hends, outcome_bundle tree shelf root document⟩, ?_⟩
  intro entered last hwalk
  obtain ⟨hnodup, -, hfiles⟩ := hwalk.entered
  exact ⟨hnodup, hfiles⟩

end SchemaCodecs
