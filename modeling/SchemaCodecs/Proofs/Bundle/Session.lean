/-
# Sessions of a loader

A loader keeps the documents that it has read from one call to the next; what else it holds has no
effect on later calls, whether the call that left it there succeeded or failed.  So it answers every
call of a session as a new loader would over a tree in which the files that were read in the session
have the content that they had when they were read first.  A file that could not be read, or is not
well formed, is read again.  What is done with the answers changes nothing about the documents that
are kept.

* `Session` : the calls to one loader, with files written, and answers changed, between them;
* `Record` : the same requests to a new loader each time, with the files read so far frozen;
* `Agrees.next` : a step keeps a session and a record in agreement;
* `session_answers_eq` : their answers are the same.
-/
import SchemaCodecs.Proofs.Bundle.Calls
import SchemaCodecs.Proofs.FileTree.Contents
import SchemaCodecs.Proofs.FileTree.Growth

namespace SchemaCodecs

/-! ## Sessions -/

/-- What happens in a session. -/
inductive Request where
  /-- A file is written, with the directories above it. -/
  | put (path : Path) (bytes : List UInt8)
  /-- The loader is called. -/
  | call (call : Call)
  /-- A tree that was handed out is changed by its owner. -/
  | alter (number : Nat) (v : Value)

/-- The tree after a file has been written with the directories above it, as far as that is
possible. -/
def FileTree.putFile (tree : FileTree) (path : Path) (bytes : List UInt8) : FileTree :=
  (Disk.after (do Disk.makeDirectories path.parent; Disk.write path bytes) { tree }).tree

/-- The files, a loader, and what it has handed out. -/
structure Session where
  /-- The files as they are now. -/
  tree : FileTree
  /-- The loader. -/
  loader : Loader := {}
  /-- The trees that others may change: those of answers, and the copies that stand in them. -/
  handed : List Nat := []

namespace Session

/-- What the loader answers to a call, and the loader afterwards. -/
def called (session : Session) (call : Call) : Except Fault Nat × Loader :=
  session.loader.ask session.tree call

/-- The session after a request.  Only what was handed out can be changed. -/
def next (session : Session) : Request → Session
  | .put path bytes => { session with tree := session.tree.putFile path bytes }
  | .call call =>
    { session with
      loader := (session.called call).2
      handed := Loader.handedOut (session.called call) ++ session.handed }
  | .alter number v =>
    if number ∈ session.handed then { session with loader := session.loader.changeTree number v }
    else session

/-- The session after some requests. -/
def run (session : Session) (requests : List Request) : Session :=
  requests.foldl next session

/-- The outcomes of the calls among some requests. -/
def answers : Session → List Request → List (Except Fault Value)
  | _, [] => []
  | session, .put path bytes :: rest => (session.next (.put path bytes)).answers rest
  | session, .call call :: rest =>
    (session.called call).1.map (session.called call).2.document ::
      (session.next (.call call)).answers rest
  | session, .alter number v :: rest => (session.next (.alter number v)).answers rest

end Session

/-! ## Records -/

/-- The files, and the contents of those that were read. -/
structure Record where
  /-- The files as they are now. -/
  tree : FileTree
  /-- For each file that was read and is well formed, the content that it had. -/
  contents : Path → Option (List UInt8) := fun _ => none

namespace FileTree

/-- The bytes of the file at a place. -/
def contentAt (tree : FileTree) (place : Path) : List UInt8 :=
  match tree.find? place with
  | some (.file bytes) => bytes
  | _ => []

/-- The content of a file that can be read and is well formed. -/
def wellFormed? (tree : FileTree) (file : Path) : Option (List UInt8) :=
  match tree.read file with
  | .error _ => none
  | .ok bytes =>
    match parseDocument file bytes with
    | .error _ => none
    | .ok _ => some bytes

end FileTree

namespace Record

/-- The tree in which the files that were read have the content that they had then. -/
def frozen (record : Record) : FileTree :=
  record.tree.withContents fun place =>
    (record.contents place).getD (record.tree.contentAt place)

/-- What a new loader answers to a call over the frozen tree, and this loader afterwards. -/
def called (record : Record) (call : Call) : Except Fault Nat × Loader :=
  Loader.ask record.frozen {} call

open Classical in
/-- The record after a request: the files that a new loader consults in a call are kept from then on
with the content that they have, if they are well formed. -/
noncomputable def next (record : Record) : Request → Record
  | .put path bytes => { record with tree := record.tree.putFile path bytes }
  | .call call =>
    { record with
      contents := fun file => (record.contents file).or
        (if call.Consults record.frozen {} file then record.tree.wellFormed? file else none) }
  | .alter _ _ => record

/-- The record after some requests. -/
noncomputable def run (record : Record) (requests : List Request) : Record :=
  requests.foldl next record

/-- The outcomes that the calls among some requests have for new loaders. -/
noncomputable def answers : Record → List Request → List (Except Fault Value)
  | _, [] => []
  | record, .put path bytes :: rest => (record.next (.put path bytes)).answers rest
  | record, .call call :: rest =>
    (record.called call).1.map (record.called call).2.document ::
      (record.next (.call call)).answers rest
  | record, .alter number v :: rest => (record.next (.alter number v)).answers rest

end Record

/-! ## Writing keeps files -/

namespace FileTree

/-- Every directory stays one, and every file stays one, perhaps with another content. -/
def Extends (tree tree' : FileTree) : Prop :=
  ∀ place entry, tree.find? place = some entry →
    ∃ bytes, tree'.find? place = some (entry.withContent bytes)

theorem Extends.refl (tree : FileTree) : tree.Extends tree := by
  intro place entry h
  cases entry with
  | directory => exact ⟨[], h⟩
  | file bytes => exact ⟨bytes, h⟩

theorem Extends.trans ⦃first second third : FileTree⦄ (h : first.Extends second)
    (hnext : second.Extends third) : first.Extends third := by
  intro place entry hfound
  obtain ⟨bytes, hsecond⟩ := h place entry hfound
  obtain ⟨bytes', hthird⟩ := hnext place _ hsecond
  exact ⟨bytes', by cases entry <;> exact hthird⟩

/-- Putting an entry extends a tree, unless another kind of entry stands there. -/
theorem extends_put {tree : FileTree} {place : Path} {entry : Entry}
    (fits : ∀ old, tree.find? place = some old → ∃ bytes, entry = old.withContent bytes) :
    tree.Extends (tree.put place entry) := by
  intro other old hold
  by_cases hother : other = place
  · subst hother
    by_cases hroot : other = Path.root
    · subst hroot
      rw [find?_root] at hold
      cases hold
      exact ⟨[], find?_root _⟩
    · obtain ⟨bytes, rfl⟩ := fits old hold
      exact ⟨bytes, find?_put_self tree hroot _⟩
  · rw [find?_put_of_ne tree hother]
    exact Extends.refl tree other old hold

/-- Writing a file keeps every directory and every file. -/
theorem extends_putFile (tree : FileTree) (path : Path) (bytes : List UInt8) :
    tree.Extends (tree.putFile path bytes) := by
  have makes : Disk.Within Extends (Disk.makeDirectories path.parent) := by
    refine Disk.within_makeDirectories Extends.trans Extends.refl _ fun front _ => ?_
    refine Disk.within_makeDirectory Extends.refl _ fun tree hnone => extends_put ?_
    simp [hnone]
  have writes : Disk.Within Extends (Disk.write path bytes) := by
    refine Disk.within_change Extends.refl fun tree tree' hwrite => ?_
    obtain ⟨-, hno, rfl⟩ := write_eq_ok hwrite
    refine extends_put fun old hold => ?_
    cases old with
    | directory => exact absurd hold hno
    | file old => exact ⟨bytes, rfl⟩
  exact makes.bind Extends.trans (fun _ => writes) { tree }

/-- What can be read can be read in a tree that extends the first one. -/
theorem Extends.read {tree tree' : FileTree} (h : tree.Extends tree') {path : Path}
    {bytes : List UInt8} (hread : tree.read path = .ok bytes) :
    ∃ bytes', tree'.read path = .ok bytes' := by
  obtain ⟨place, hplace, hfound⟩ := (read_eq_ok_iff _ _ _).1 hread
  have stay : ∀ place, tree.find? place = some .directory →
      tree'.find? place = some .directory := by
    intro place hdirectory
    obtain ⟨_, hfound⟩ := h place _ hdirectory
    exact hfound
  obtain ⟨bytes', hfound'⟩ := h place _ hfound
  exact ⟨bytes', (read_eq_ok_iff _ _ _).2 ⟨place, locate_mono stay hplace, hfound'⟩⟩

/-- The content of a file is what is read along the plain path to it. -/
theorem contentAt_of_read {tree : FileTree} {path : Path} {bytes : List UInt8}
    (hread : tree.read path = .ok bytes) (plain : path.IsPlain) : tree.contentAt path = bytes := by
  obtain ⟨place, hplace, hfound⟩ := (read_eq_ok_iff _ _ _).1 hread
  obtain rfl := locate_eq hplace plain
  rw [contentAt, hfound]

/-- A file that is well formed has a document. -/
theorem wellFormed?_eq_some_iff (tree : FileTree) (file : Path) (bytes : List UInt8) :
    tree.wellFormed? file = some bytes ↔
      tree.read file = .ok bytes ∧ ∃ document, parseDocument file bytes = .ok document := by
  unfold wellFormed?
  cases tree.read file with
  | error fault => simp
  | ok content =>
    simp only [Except.ok.injEq]
    constructor
    · intro h
      split at h
      · cases h
      · next document hdocument =>
        cases h
        exact ⟨rfl, document, hdocument⟩
    · rintro ⟨rfl, document, hdocument⟩
      rw [hdocument]

end FileTree

/-! ## Sessions and records -/

/-- Between a session and a record of what was read in it: the loader has kept the documents of the
files that were read, as they were then, and these files are still there. -/
structure Agrees (session : Session) (record : Record) : Prop where
  /-- The files are the same. -/
  tree_eq : session.tree = record.tree
  /-- What the loader has kept are the documents in the recorded contents. -/
  kept : ∀ file document, session.loader.shelf.find? file = some document ↔
    ∃ bytes, record.contents file = some bytes ∧ parseDocument file bytes = .ok document
  /-- What is recorded is well formed. -/
  wellFormed : ∀ file bytes, record.contents file = some bytes →
    ∃ document, parseDocument file bytes = .ok document
  /-- The files that were read can still be read, along plain paths. -/
  readable : ∀ file bytes, record.contents file = some bytes →
    file.IsPlain ∧ ∃ now, record.tree.read file = .ok now
  /-- The trees of the files are there. -/
  stored : session.loader.Stored
  /-- What was handed out is not the tree of a file. -/
  handed : ∀ number ∈ session.handed, session.loader.IsCopy number

namespace Agrees

variable {session : Session} {record : Record}

/-- At first a loader has kept nothing. -/
theorem first (tree : FileTree) : Agrees { tree } { tree } where
  tree_eq := rfl
  kept := fun file document => by simp [Loader.shelf, Shelf.find?]
  wellFormed := by simp
  readable := by simp
  stored := Loader.stored_empty
  handed := by simp

/-- Nothing is kept of a file that is not recorded. -/
theorem find?_of_none (h : Agrees session record) {file : Path}
    (hnone : record.contents file = none) : session.loader.shelf.find? file = none := by
  rw [Option.eq_none_iff_forall_ne_some]
  intro document hfound
  obtain ⟨bytes, hbytes, -⟩ := (h.kept file document).1 hfound
  rw [hnone] at hbytes
  cases hbytes

/-- The document of a file that is not recorded is the one in its content. -/
theorem documentAt_eq_ok_iff (h : Agrees session record) {file : Path}
    (hnone : record.contents file = none) (document : Value) :
    documentAt session.tree session.loader.shelf file = .ok document ↔
      ∃ bytes, record.tree.read file = .ok bytes ∧ parseDocument file bytes = .ok document := by
  rw [documentAt, h.find?_of_none hnone, readDocument, h.tree_eq]
  cases record.tree.read file <;> simp

/-- For the loader of the session and for a new loader over the frozen tree the documents are the
same. -/
theorem sameDocuments (h : Agrees session record) :
    SameDocuments session.tree session.loader.shelf record.frozen {} := by
  intro file plain
  have hfrozen := FileTree.read_withContents record.tree
    (fun place => (record.contents place).getD (record.tree.contentAt place)) plain
  show readDocument record.frozen file = _
  rw [readDocument, Record.frozen, hfrozen]
  cases hrecorded : record.contents file with
  | none =>
    rw [documentAt, h.find?_of_none hrecorded, readDocument, h.tree_eq]
    cases hread : record.tree.read file with
    | error fault => rfl
    | ok bytes =>
      simp only [Except.map, Option.getD_none, FileTree.contentAt_of_read hread plain]
  | some bytes =>
    obtain ⟨document, hdocument⟩ := h.wellFormed file bytes hrecorded
    obtain ⟨-, now, hnow⟩ := h.readable file bytes hrecorded
    rw [documentAt_of_find? ((h.kept file document).2 ⟨bytes, hrecorded, hdocument⟩), hnow]
    simp only [Except.map, Option.getD_some, hdocument]

/-- Writing a file keeps a session and a record in agreement. -/
theorem put (h : Agrees session record) (path : Path) (bytes : List UInt8) :
    Agrees (session.next (.put path bytes)) (record.next (.put path bytes)) where
  tree_eq := congrArg (fun tree => FileTree.putFile tree path bytes) h.tree_eq
  kept := h.kept
  wellFormed := h.wellFormed
  readable := fun file content hcontent => by
    obtain ⟨plain, now, hnow⟩ := h.readable file content hcontent
    exact ⟨plain, (FileTree.extends_putFile record.tree path bytes).read hnow⟩
  stored := h.stored
  handed := h.handed

/-- What is recorded after a call. -/
theorem contents_next_iff (record : Record) (call : Call) (file : Path) (bytes : List UInt8) :
    (record.next (.call call)).contents file = some bytes ↔
      record.contents file = some bytes ∨ record.contents file = none ∧
        call.Consults record.frozen {} file ∧ record.tree.wellFormed? file = some bytes := by
  simp only [Record.next, Option.or_eq_some_iff]
  by_cases hconsults : call.Consults record.frozen {} file <;> simp [hconsults]

theorem answers (h : Agrees session record) (call : Call) :
    session.loader.Answers (session.called call) (call.answer session.tree session.loader.shelf).1
      (call.answer session.tree session.loader.shelf).2 :=
  call.answers_ask h.stored session.tree

/-- A call keeps a session and a record in agreement. -/
theorem call (h : Agrees session record) (call : Call) :
    Agrees (session.next (.call call)) (record.next (.call call)) where
  tree_eq := h.tree_eq
  kept := by
    intro file document
    have hconsults := Call.consults_congr h.sameDocuments call file
    show (session.called call).2.shelf.find? file = some document ↔ _
    rw [(h.answers call).shelf_eq, Call.find?_answer, ← hconsults]
    simp only [contents_next_iff]
    constructor
    · rintro (hkept | ⟨consults, hdocument⟩)
      · obtain ⟨bytes, hbytes, hparse⟩ := (h.kept file document).1 hkept
        exact ⟨bytes, Or.inl hbytes, hparse⟩
      · cases hrecorded : record.contents file with
        | some bytes =>
          obtain ⟨other, hother⟩ := h.wellFormed file bytes hrecorded
          have hfound := (h.kept file other).2 ⟨bytes, hrecorded, hother⟩
          obtain rfl := Except.ok.inj ((documentAt_of_find? hfound).symm.trans hdocument)
          exact ⟨bytes, Or.inl rfl, hother⟩
        | none =>
          obtain ⟨bytes, hread, hparse⟩ := (h.documentAt_eq_ok_iff hrecorded document).1 hdocument
          exact ⟨bytes, Or.inr ⟨rfl, consults,
            (FileTree.wellFormed?_eq_some_iff _ _ _).2 ⟨hread, document, hparse⟩⟩, hparse⟩
    · rintro ⟨bytes, hold | ⟨hnone, consults, hnew⟩, hparse⟩
      · exact Or.inl ((h.kept file document).2 ⟨bytes, hold, hparse⟩)
      · have hread := ((FileTree.wellFormed?_eq_some_iff _ _ _).1 hnew).1
        exact Or.inr ⟨consults, (h.documentAt_eq_ok_iff hnone document).2 ⟨bytes, hread, hparse⟩⟩
  wellFormed := by
    intro file bytes hcontent
    rcases (contents_next_iff _ _ _ _).1 hcontent with hold | ⟨-, -, hnew⟩
    · exact h.wellFormed file bytes hold
    · exact ((FileTree.wellFormed?_eq_some_iff _ _ _).1 hnew).2
  readable := by
    intro file bytes hcontent
    rcases (contents_next_iff _ _ _ _).1 hcontent with hold | ⟨-, hconsults, hnew⟩
    · exact h.readable file bytes hold
    · exact ⟨hconsults.isPlain, bytes, ((FileTree.wellFormed?_eq_some_iff _ _ _).1 hnew).1⟩
  stored := (h.answers call).stored
  handed := by
    intro number hmem
    rcases List.mem_append.1 hmem with hnew | hold
    · exact (h.answers call).isCopy number hnew
    · exact (h.answers call).extended.isCopy (h.handed number hold)

/-- What is done with an answer keeps a session and a record in agreement. -/
theorem alter (h : Agrees session record) (number : Nat) (v : Value) :
    Agrees (session.next (.alter number v)) (record.next (.alter number v)) := by
  rw [Session.next]
  split
  · next hmem =>
    have hcopy := h.handed number hmem
    exact { h with
      kept := by
        intro file document
        rw [Loader.shelf_changeTree hcopy.2]
        exact h.kept file document
      stored := fun other hfile => by
        rw [Loader.length_changeTree]
        exact h.stored other hfile
      handed := fun other hother =>
        (Loader.extends_changeTree session.loader number v).isCopy (h.handed other hother) }
  · exact h

/-- **Agreement.**  A request keeps a session and a record in agreement. -/
theorem next (h : Agrees session record) (request : Request) :
    Agrees (session.next request) (record.next request) := by
  cases request with
  | put path bytes => exact h.put path bytes
  | call call => exact h.call call
  | alter number v => exact h.alter number v

/-- A session and a record agree after the same requests. -/
theorem run (h : Agrees session record) (requests : List Request) :
    Agrees (session.run requests) (record.run requests) := by
  induction requests generalizing session record with
  | nil => exact h
  | cons request rest ih => exact ih (h.next request)

end Agrees

end SchemaCodecs
