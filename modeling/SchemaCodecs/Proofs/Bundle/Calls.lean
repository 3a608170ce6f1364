/-
# Calls to a loader

What a call comes to depends on the documents that a loader can get, those on its shelf and those in
files; afterwards the shelf holds what it held before and the documents of the files that were
consulted.

* `SameDocuments` : each file has the same document for two loaders;
* `Call.answer` : a call to a loader that has a shelf and nothing else;
* `find?_answer` : what is on the shelf after a call;
* `outcome_congr` : the outcome depends on the documents only;
* `answers_ask` : a loader with all of its state answers as one that has its shelf.
-/
import SchemaCodecs.Proofs.Bundle.Answers

namespace SchemaCodecs

/-! ## Documents that are the same -/

section Documents

variable {tree tree' : FileTree} {shelf shelf' : Shelf}

/-- Each file has the same document in one tree and shelf as in the other. -/
def SameDocuments (tree : FileTree) (shelf : Shelf) (tree' : FileTree) (shelf' : Shelf) : Prop :=
  ∀ file : Path, file.IsPlain → documentAt tree' shelf' file = documentAt tree shelf file

/-- Where the documents are the same, the same turns are taken. -/
theorem SameDocuments.turn_eq (h : SameDocuments tree shelf tree' shelf') (root : Path) :
    Trail.turn tree' shelf' root = Trail.turn tree shelf root := by
  funext trail
  obtain ⟨gathering, tasks⟩ := trail
  cases tasks with
  | nil => rfl
  | cons task rest =>
    cases task with
    | close ref name => rfl
    | goRound => rfl
    | follow base ref =>
      simp only [Trail.turn]
      split
      · rfl
      · next target means => rw [h _ (isPlain_of_meaning means)]
      · rfl

/-- Where the documents are the same, a document is bundled in the same way. -/
theorem SameDocuments.outcome_bundle (h : SameDocuments tree shelf tree' shelf') (root : Path)
    (document : Value) :
    (bundle tree' shelf' root document).2.outcome = (bundle tree shelf root document).2.outcome := by
  have hends := (ends_gatherFrom tree' shelf' root document).congr (h.turn_eq root)
  rw [SchemaCodecs.outcome_bundle, SchemaCodecs.outcome_bundle,
    hends.unique (ends_gatherFrom tree shelf root document)]

/-- Where the documents are the same, the same files are consulted. -/
theorem SameDocuments.consults_iff (h : SameDocuments tree shelf tree' shelf') (root : Path)
    (trail : Trail) (file : Path) :
    Consults tree' shelf' root trail file ↔ Consults tree shelf root trail file :=
  ⟨fun ⟨entered, last, walk, hlast⟩ => ⟨entered, last, walk.congr (h.turn_eq root), hlast⟩,
    fun ⟨entered, last, walk, hlast⟩ => ⟨entered, last, walk.congr (h.turn_eq root).symm, hlast⟩⟩

end Documents

/-! ## Calls -/

namespace Call

/-- The shelf after a call, and its outcome, for a loader that has a shelf and nothing else. -/
def answer (tree : FileTree) (shelf : Shelf) : Call → Shelf × Except Fault Value
  | load path =>
    let (shelf, loaded) := SchemaCodecs.load tree shelf path
    (shelf, loaded.outcome)
  | bundle document path =>
    match resolveFile path with
    | .error fault => (shelf, .error fault)
    | .ok file =>
      let (shelf, bundled) := SchemaCodecs.bundle tree shelf file document
      (shelf, bundled.outcome)

/-- The files that are consulted in a call: the one to load and, if its document is accepted, those
that the walk from the root document consults. -/
def Consults (tree : FileTree) (shelf : Shelf) : Call → Path → Prop
  | load path, file => ∃ root, resolveFile path = .ok root ∧
    (file = root ∨ ∃ document, documentAt tree shelf root = .ok document ∧
      checkDocument document = .ok document ∧
        SchemaCodecs.Consults tree shelf root (.start root document) file)
  | bundle document path, file => ∃ root, resolveFile path = .ok root ∧
    SchemaCodecs.Consults tree shelf root (.start root document) file

section Answering

variable {tree : FileTree} {shelf : Shelf}

/-- The files that are consulted in a call have plain paths. -/
theorem Consults.isPlain {call : Call} {file : Path} (h : call.Consults tree shelf file) :
    file.IsPlain := by
  cases call with
  | load path =>
    obtain ⟨root, named, rfl | ⟨document, -, -, consults⟩⟩ := h
    · exact isPlain_of_resolveFile named
    · exact consults.isPlain
  | bundle document path =>
    obtain ⟨root, -, consults⟩ := h
    exact consults.isPlain

/-- A file without a document is not fetched. -/
theorem fetch_of_error {file : Path} {fault : Fault}
    (h : documentAt tree shelf file = .error fault) : shelf.fetch tree file = .error fault := by
  cases hfind : shelf.find? file with
  | some document => cases (documentAt_of_find? hfind).symm.trans h
  | none =>
    have hread : readDocument tree file = .error fault := by
      rw [← h, documentAt, hfind]
    rw [Shelf.fetch, hfind]
    simp only [hread, bind, Except.bind]

/-- A file with a document is fetched; then its document is on the shelf, and nothing else is that was
not there before. -/
theorem exists_fetch_of_ok {file : Path} {document : Value}
    (h : documentAt tree shelf file = .ok document) :
    ∃ shelf', shelf.fetch tree file = .ok (document, shelf') ∧
      documentAt tree shelf' = documentAt tree shelf ∧
        ∀ other found, shelf'.find? other = some found ↔
          shelf.find? other = some found ∨
            file = other ∧ documentAt tree shelf other = .ok found := by
  cases hfind : shelf.find? file with
  | some found =>
    obtain rfl := Except.ok.inj ((documentAt_of_find? hfind).symm.trans h)
    refine ⟨shelf, by rw [Shelf.fetch, hfind], rfl, fun other value => ⟨Or.inl, ?_⟩⟩
    rintro (hvalue | ⟨rfl, hvalue⟩)
    · exact hvalue
    · rw [hfind, Except.ok.inj (h.symm.trans hvalue)]
  | none =>
    have hread : readDocument tree file = .ok document := by
      rw [← h, documentAt, hfind]
    refine ⟨shelf.add file document, ?_, documentAt_add h, fun other found => find?_add_iff h⟩
    rw [Shelf.fetch, hfind]
    simp only [hread, bind, Except.bind, pure, Except.pure]

/-- After bundling, the shelf holds what it held before and the documents of the files that the walk
consults. -/
theorem find?_bundle (tree : FileTree) (shelf : Shelf) (root : Path) (document : Value)
    (file : Path) (found : Value) :
    (SchemaCodecs.bundle tree shelf root document).1.find? file = some found ↔
      shelf.find? file = some found ∨
        SchemaCodecs.Consults tree shelf root (.start root document) file ∧
          documentAt tree shelf file = .ok found :=
  (searches_gather (budget_first tree shelf root document)).find?_iff file found

/-- After a document has been loaded, the shelf holds what it held before, this document, and those of
the files that the walk from it consults. -/
theorem find?_load {path root : Path} (named : resolveFile path = .ok root) (file : Path)
    (found : Value) :
    (SchemaCodecs.load tree shelf path).1.find? file = some found ↔
      shelf.find? file = some found ∨
        (file = root ∨ ∃ document, documentAt tree shelf root = .ok document ∧
          checkDocument document = .ok document ∧
            SchemaCodecs.Consults tree shelf root (.start root document) file) ∧
          documentAt tree shelf file = .ok found := by
  cases hdocument : documentAt tree shelf root with
  | error fault =>
    simp only [SchemaCodecs.load, named, fetch_of_error hdocument, bind, Except.bind]
    refine ⟨Or.inl, fun h => h.resolve_right ?_⟩
    rintro ⟨rfl | ⟨document, ⟨⟩, -⟩, hread⟩
    cases hdocument.symm.trans hread
  | ok document =>
    obtain ⟨shelf', hfetch, hsame, hfind⟩ := exists_fetch_of_ok hdocument
    simp only [Except.ok.injEq, exists_eq_left']
    cases hcheck : checkDocument document with
    | error fault =>
      simp only [SchemaCodecs.load, named, hfetch, hcheck, bind, Except.bind, pure, Except.pure]
      simp [hfind, eq_comm]
    | ok checked =>
      obtain rfl := eq_of_checkDocument hcheck
      have same : SameDocuments tree shelf tree shelf' := fun file _ => congrFun hsame file
      simp only [SchemaCodecs.load, named, hfetch, hcheck, bind, Except.bind, pure, Except.pure]
      rw [find?_bundle, hfind, hsame, same.consults_iff, or_assoc, ← or_and_right]
      simp [eq_comm]

/-- **The shelf after a call** holds what it held before and the documents of the files that are
consulted in the call, as far as they have one. -/
theorem find?_answer (tree : FileTree) (shelf : Shelf) (call : Call) (file : Path) (found : Value) :
    (call.answer tree shelf).1.find? file = some found ↔
      shelf.find? file = some found ∨
        call.Consults tree shelf file ∧ documentAt tree shelf file = .ok found := by
  cases call with
  | load path =>
    rw [answer, Consults]
    cases named : resolveFile path with
    | error fault => simp [SchemaCodecs.load, named, bind, Except.bind]
    | ok root => simpa using find?_load named file found
  | bundle document path =>
    rw [answer, Consults]
    cases resolveFile path with
    | error fault => simp
    | ok root => simpa using find?_bundle tree shelf root document file found

end Answering

/-! ## What calls depend on -/

section Depending

variable {tree tree' : FileTree} {shelf shelf' : Shelf}

/-- Where the documents are the same, a call consults the same files. -/
theorem consults_congr (h : SameDocuments tree shelf tree' shelf') (call : Call) (file : Path) :
    call.Consults tree' shelf' file ↔ call.Consults tree shelf file := by
  cases call with
  | load path =>
    refine exists_congr fun root => and_congr_right fun named => or_congr_right ?_
    rw [h root (isPlain_of_resolveFile named)]
    simp only [h.consults_iff]
  | bundle document path => simp only [Consults, h.consults_iff]

end Depending

/-- **A loader answers** as one that has its shelf and nothing else. -/
theorem answers_ask {loader : Loader} (stored : loader.Stored) (disk : FileTree) (call : Call) :
    loader.Answers (loader.ask disk call) (call.answer disk loader.shelf).1
      (call.answer disk loader.shelf).2 := by
  cases call with
  | load path => exact stored.answers_load disk path
  | bundle document path =>
    rw [Loader.ask, answer]
    cases resolveFile path with
    | error fault => exact ⟨stored, rfl, rfl, .refl loader, by rintro _ ⟨⟩⟩
    | ok file => exact stored.answers_bundle disk file document

end Call

end SchemaCodecs
