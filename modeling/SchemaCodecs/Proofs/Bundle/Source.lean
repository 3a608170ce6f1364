/-
# Sources of targets

The value that a target denotes: the document of its file, or the part of it that the pointer
selects.  It does not depend on the reference that led to the target, and it is as well formed as
the document.  A reference leads out of the root document only through the references that stand in
documents.
-/
import SchemaCodecs.Bundle.Gather
import SchemaCodecs.Proofs.Bundle.Relocation
import SchemaCodecs.Proofs.Value.Recurrence

namespace SchemaCodecs

/-! ## Parts of a document -/

namespace Value

/-- The part of a document that a pointer selects. -/
def partAt? (document : Value) (pointer : Text) : Option Value :=
  match pointer.toList with
  | [] => some document
  | '/' :: rest => Reference.enterAll? (Reference.pointerTokens (.char '/' :: rest)) document
  | _ => none

/-- Which part a pointer selects does not depend on the reference it comes from. -/
theorem resolveInside_eq_ok_iff (document : Value) (pointer ref : Text) (part : Value) :
    Reference.resolveInside document pointer ref = .ok part ↔
      document.partAt? pointer = some part := by
  unfold Reference.resolveInside Reference.alongPointer partAt?
  generalize pointer.toList = characters
  split
  · simp
  · next rest =>
    show _ ↔ Reference.enterAll? (Reference.pointerTokens (.char '/' :: rest)) document = some part
    dsimp only
    cases Reference.enterAll? (Reference.pointerTokens (.char '/' :: rest)) document <;> simp
  · simp

/-- What a token selects is an item of a sequence or stands in an entry of a mapping. -/
theorem select?_eq_some {token : List Point} {v part : Value}
    (h : Reference.select? token v = some part) :
    (∃ items, v = sequence items ∧ part ∈ items) ∨
      ∃ label entries, v = mapping label entries ∧ ∃ entry ∈ entries, entry.2 = part := by
  unfold Reference.select? at h
  split at h
  · next items =>
    obtain ⟨index, -, hitem⟩ := Option.bind_eq_some_iff.1 h
    refine Or.inl ⟨items, rfl, ?_⟩
    unfold Reference.itemAt? at hitem
    split at hitem
    · exact List.mem_of_getElem? hitem
    · split at hitem
      · exact List.mem_of_getElem? hitem
      · cases hitem
  · next label entries =>
    obtain ⟨entry, hentry, -, hvalue⟩ := exists_entry_of_lookup h
    exact Or.inr ⟨label, entries, rfl, entry, hentry, hvalue⟩
  · cases h

theorem enter?_eq_some_iff (token : List Point) (v part : Value) :
    Reference.enter? token v = some part ↔
      ∃ inner, Reference.select? token v = some inner ∧ v.fill 0 inner = part :=
  Option.map_eq_some_iff

/-- Inside a value that does not contain itself no marks are filled. -/
theorem enterAll?_of_isFinite {v : Value} (finite : v.isFinite = true) (tokens : List (List Point)) :
    Reference.enterAll? tokens v = Reference.selectAll? tokens v := by
  unfold Reference.enterAll? Reference.selectAll?
  induction tokens generalizing v with
  | nil => rfl
  | cons token rest ih =>
    rw [List.foldlM_cons, List.foldlM_cons, Reference.enter?]
    cases hselect : Reference.select? token v with
    | none => rfl
    | some inner =>
      have hinner : inner.isFinite = true := by
        rcases select?_eq_some hselect with ⟨items, rfl, hmem⟩ | ⟨label, entries, rfl, entry, hmem, rfl⟩
        · exact (isFinite_sequence_iff items).1 finite inner hmem
        · exact (isFinite_mapping_iff label entries).1 finite entry hmem
      rw [Option.map_some, fill_of_isFinite v 0 hinner]
      exact ih hinner

theorem resolveInside_of_isFinite {document : Value} (finite : document.isFinite = true)
    (pointer ref : Text) :
    Reference.resolveInside document pointer ref = Reference.resolvePointer document pointer ref := by
  rw [Reference.resolveInside, Reference.resolvePointer, funext (enterAll?_of_isFinite finite)]

/-- If every token selects related parts from related values, then so does every pointer. -/
theorem exists_partAt?_of_related {R : Value → Value → Prop}
    (hselect : ∀ token v w next, R v w → Reference.enter? token w = some next →
      ∃ before, Reference.enter? token v = some before ∧ R before next)
    {document other part : Value} {pointer : Text} (h : R document other)
    (hpart : other.partAt? pointer = some part) :
    ∃ before, document.partAt? pointer = some before ∧ R before part := by
  have hall : ∀ (tokens : List (List Point)) (v w : Value), R v w →
      Reference.enterAll? tokens w = some part →
        ∃ before, Reference.enterAll? tokens v = some before ∧ R before part := by
    intro tokens
    unfold Reference.enterAll?
    induction tokens with
    | nil =>
      intro v w hR hw
      cases hw
      exact ⟨v, rfl, hR⟩
    | cons token rest ih =>
      intro v w hR hw
      rw [List.foldlM_cons] at hw
      obtain ⟨next, hnext, hrest⟩ := Option.bind_eq_some_iff.1 hw
      obtain ⟨before, hbefore, hrelated⟩ := hselect token v w next hR hnext
      rw [List.foldlM_cons, hbefore]
      exact ih before next hrelated hrest
  unfold partAt? at hpart ⊢
  split at hpart
  · cases hpart
    exact ⟨document, rfl, h⟩
  · exact hall _ _ _ h hpart
  · cases hpart

/-- A fact that passes to the items of sequences and the values of mappings, also when their marks are
filled, passes to every part that a pointer selects. -/
theorem of_partAt? {P : Value → Prop}
    (hsequence : ∀ items, P (sequence items) → ∀ v ∈ items, P v)
    (hmapping : ∀ label entries, P (mapping label entries) → ∀ entry ∈ entries, P entry.2)
    (hfill : ∀ whole v : Value, whole.text? = none → P whole → P v → P (whole.fill 0 v))
    {document part : Value} {pointer : Text} (h : document.partAt? pointer = some part)
    (hdocument : P document) : P part := by
  have hselect : ∀ token v w next, v = w ∧ P w → Reference.enter? token w = some next →
      ∃ before, Reference.enter? token v = some before ∧ before = next ∧ P next := by
    rintro token _ v next ⟨rfl, hv⟩ hnext
    refine ⟨next, hnext, rfl, ?_⟩
    obtain ⟨inner, hinner, rfl⟩ := (enter?_eq_some_iff _ _ _).1 hnext
    rcases select?_eq_some hinner with ⟨items, rfl, hmem⟩ | ⟨label, entries, rfl, entry, hmem, rfl⟩
    · exact hfill _ _ rfl hv (hsequence items hv inner hmem)
    · exact hfill _ _ rfl hv (hmapping label entries hv entry hmem)
  obtain ⟨_, -, -, hpart⟩ := exists_partAt?_of_related hselect ⟨rfl, hdocument⟩ h
  exact hpart

/-- A part of a value without repetitions has none. -/
theorem Distinct.part {document part : Value} {pointer : Text}
    (h : document.partAt? pointer = some part) (hdocument : document.Distinct) :
    part.Distinct := by
  refine of_partAt? ?_ ?_ (fun _ _ _ hwhole hv => hwhole.fill hv 0) h hdocument
  · intro items hitems
    cases hitems with
    | sequence parts => exact parts
  · intro label entries hentries
    cases hentries with
    | mapping _ parts => exact parts

/-- A part of a value that does not contain itself does not do so either. -/
theorem isFinite_part {document part : Value} {pointer : Text}
    (h : document.partAt? pointer = some part) (finite : document.isFinite = true) :
    part.isFinite = true := by
  refine of_partAt? (P := fun v => v.isFinite = true) ?_ ?_ ?_ h finite
  · exact fun items hitems => (isFinite_sequence_iff items).1 hitems
  · exact fun label entries hentries => (isFinite_mapping_iff label entries).1 hentries
  · intro whole v _ _ hv
    rwa [fill_of_isFinite whole 0 hv]

/-- Filling marks of a value without labels with one that has none makes none. -/
theorem AliasFree.fill {whole v : Value} (hwhole : whole.AliasFree) (h : v.AliasFree)
    (levels : Nat) : (fill whole levels v).AliasFree := by
  induction v using parts_induction generalizing levels with
  | scalar s =>
    unfold Value.fill
    split
    · split
      · exact hwhole
      · exact h
    all_goals simp_all
  | sequence items ih =>
    rw [aliasFree_sequence_iff] at h
    rw [Value.fill, fillItems_eq_map, aliasFree_sequence_iff]
    exact List.forall_mem_map.2 fun v hv => ih v hv (h v hv) _
  | mapping label entries ih =>
    obtain ⟨hlabel, hparts⟩ := (aliasFree_mapping_iff _ _).1 h
    rw [Value.fill, fillEntries_eq_map, aliasFree_mapping_iff]
    exact ⟨hlabel, List.forall_mem_map.2 fun entry hentry => ih entry hentry (hparts entry hentry) _⟩
  | set members => exact h
  | pair first second ihfirst ihsecond =>
    obtain ⟨hfirst, hsecond⟩ := (aliasFree_pair_iff _ _).1 h
    rw [Value.fill, aliasFree_pair_iff]
    exact ⟨ihfirst hfirst _, ihsecond hsecond _⟩

/-- A part of a value without labels has none. -/
theorem AliasFree.part {document part : Value} {pointer : Text}
    (h : document.partAt? pointer = some part) (hdocument : document.AliasFree) :
    part.AliasFree := by
  refine of_partAt? ?_ ?_ (fun _ _ _ hwhole hv => hwhole.fill hv 0) h hdocument
  · intro items hitems
    exact (aliasFree_sequence_iff items).1 hitems
  · intro label entries hentries
    exact ((aliasFree_mapping_iff label entries).1 hentries).2

/-! ## All references of a document -/

@[simp] theorem mem_allRefsOfItems_iff (items : List Value) (ref : Text) :
    ref ∈ allRefsOfItems items ↔ ∃ v ∈ items, ref ∈ allRefs v := by
  induction items with
  | nil => simp [allRefsOfItems]
  | cons item rest ih =>
    rw [allRefsOfItems, List.mem_append, ih]
    simp

@[simp] theorem mem_allRefsOfEntries_iff (entries : Entries) (ref : Text) :
    ref ∈ allRefsOfEntries entries ↔ ∃ entry ∈ entries, ref ∈ allRefs entry.2 := by
  induction entries with
  | nil => simp [allRefsOfEntries]
  | cons entry rest ih =>
    rw [allRefsOfEntries, List.mem_append, ih]
    simp

/-- Filling marks with a value that is no text makes and removes no text. -/
theorem text?_fill {whole : Value} (foreign : whole.text? = none) (levels : Nat) (v : Value) :
    (fill whole levels v).text? = v.text? := by
  cases v with
  | scalar s =>
    cases s with
    | again place =>
      rw [fill]
      split
      · exact foreign
      · rfl
    | _ => rfl
  | _ => rfl

/-- Filling marks with a value that is no text changes no reference of a mapping. -/
theorem refOf?_fillEntries {whole : Value} (foreign : whole.text? = none) (levels : Nat)
    (entries : Entries) : refOf? (fillEntries whole levels entries) = refOf? entries := by
  rw [refOf?, refOf?, fillEntries_eq_map, Entries.get?_map fun _ => rfl]
  cases Entries.get? Reference.refKey entries with
  | none => rfl
  | some v => exact text?_fill foreign levels v

/-- Filling marks adds only references of the value that they are filled with. -/
theorem allRefs_fill_subset {whole : Value} (foreign : whole.text? = none) (levels : Nat)
    (v : Value) : (fill whole levels v).allRefs ⊆ whole.allRefs ++ v.allRefs := by
  induction v using parts_induction generalizing levels with
  | scalar s =>
    intro ref href
    unfold fill at href
    split at href
    · split at href
      · exact List.mem_append_left _ href
      · exact List.mem_append_right _ href
    all_goals simp_all [allRefs]
  | sequence items ih =>
    intro ref href
    rw [fill, fillItems_eq_map, allRefs, mem_allRefsOfItems_iff] at href
    obtain ⟨_, hv, href⟩ := href
    obtain ⟨v, hmem, rfl⟩ := List.mem_map.1 hv
    rw [List.mem_append, allRefs, mem_allRefsOfItems_iff]
    exact (List.mem_append.1 (ih v hmem _ href)).imp_right fun h => ⟨v, hmem, h⟩
  | mapping label entries ih =>
    intro ref href
    rw [fill, allRefs, refOf?_fillEntries foreign, List.mem_append, fillEntries_eq_map,
      mem_allRefsOfEntries_iff] at href
    rw [List.mem_append, allRefs, List.mem_append, mem_allRefsOfEntries_iff]
    rcases href with href | ⟨_, hentry, href⟩
    · exact Or.inr (Or.inl href)
    · obtain ⟨entry, hmem, rfl⟩ := List.mem_map.1 hentry
      exact (List.mem_append.1 (ih entry hmem _ href)).imp_right fun h => Or.inr ⟨entry, hmem, h⟩
  | set members => simp [fill, allRefs]
  | pair first second ihfirst ihsecond =>
    intro ref href
    rw [fill, allRefs, List.mem_append] at href
    rw [List.mem_append, allRefs, List.mem_append]
    rcases href with href | href
    · exact (List.mem_append.1 (ihfirst _ href)).imp_right Or.inl
    · exact (List.mem_append.1 (ihsecond _ href)).imp_right Or.inr

/-- The references of a part are references of the document. -/
theorem allRefs_part {document part : Value} {pointer : Text}
    (h : document.partAt? pointer = some part) : part.allRefs ⊆ document.allRefs := by
  refine of_partAt? (P := fun v => v.allRefs ⊆ document.allRefs) ?_ ?_
    (fun whole v foreign hwhole hv => ?_) h fun _ => id
  · intro items hitems v hv ref href
    refine hitems ?_
    rw [allRefs, mem_allRefsOfItems_iff]
    exact ⟨v, hv, href⟩
  · intro label entries hentries entry hentry ref href
    refine hentries ?_
    rw [allRefs, List.mem_append, mem_allRefsOfEntries_iff]
    exact Or.inr ⟨entry, hentry, href⟩
  · exact List.Subset.trans (allRefs_fill_subset foreign 0 v) (List.append_subset.2 ⟨hwhole, hv⟩)

/-- The references that are met are references of the value. -/
theorem ref_mem_allRefs {v : Value} : ∀ site ∈ v.sites, site.ref ∈ v.allRefs := by
  induction v using parts_induction with
  | scalar _ => simp [sites]
  | sequence items ih =>
    intro site hsite
    rw [sites, sitesOfItems_eq_flatMap] at hsite
    obtain ⟨v, hv, hsite⟩ := List.mem_flatMap.1 hsite
    rw [allRefs, mem_allRefsOfItems_iff]
    exact ⟨v, hv, ih v hv site hsite⟩
  | mapping label entries ih =>
    intro site hsite
    rw [sites, sitesOfEntries_eq_flatMap] at hsite
    rw [allRefs, List.mem_append, mem_allRefsOfEntries_iff]
    rcases List.mem_append.1 hsite with hsite | hsite
    · obtain ⟨ref, href, rfl⟩ := Option.map_eq_some_iff.1 (Option.mem_toList.1 hsite)
      exact Or.inl (Option.mem_toList.2 href)
    · obtain ⟨entry, hentry, hsite⟩ := List.mem_flatMap.1 hsite
      split at hsite
      · simp at hsite
      · exact Or.inr ⟨entry, hentry, ih entry hentry site hsite⟩
  | set _ => simp [sites]
  | pair _ _ _ _ => simp [sites]

end Value

/-! ## Documents of files -/

/-- The document of a file: the one on the shelf, or the one that is read. -/
def documentAt (tree : FileTree) (shelf : Shelf) (file : Path) : Except Fault Value :=
  match shelf.find? file with
  | some document => .ok document
  | none => readDocument tree file

/-- The value that a target denotes. -/
def sourceAt? (tree : FileTree) (shelf : Shelf) (target : Target) : Option Value :=
  match documentAt tree shelf target.file with
  | .ok document => document.partAt? target.pointer
  | .error _ => none

/-- A target denotes a part of the document of its file. -/
theorem sourceAt?_eq_some_iff (tree : FileTree) (shelf : Shelf) (target : Target)
    (source : Value) :
    sourceAt? tree shelf target = some source ↔
      ∃ document, documentAt tree shelf target.file = .ok document ∧
        document.partAt? target.pointer = some source := by
  unfold sourceAt?
  cases documentAt tree shelf target.file <;> simp

/-- Putting what was read on the shelf changes the document of no file. -/
theorem documentAt_add {tree : FileTree} {shelf : Shelf} {file : Path} {document : Value}
    (h : documentAt tree shelf file = .ok document) :
    documentAt tree (shelf.add file document) = documentAt tree shelf := by
  funext other
  by_cases hfile : other = file
  · subst hfile
    rw [h, documentAt, Shelf.find?, Shelf.add, List.lookup_cons_self]
  · have hfind : (shelf.add file document).find? other = shelf.find? other := by
      rw [Shelf.find?, Shelf.add, List.lookup_cons, beq_eq_false_iff_ne.2 hfile]
      rfl
    rw [documentAt, documentAt, hfind]

end SchemaCodecs
