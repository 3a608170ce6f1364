/-
# Bundling a bundled document

A document in which every reference that is met stays inside is bundled without reading a file, and
comes out as it is.  A bundled document is of this kind, with one exception: a part of a file may be a
text, and if its name is that of the key of references, then the table of schemas has this text for a
reference, which was never redirected.

* `bundle_of_isSelfContained` : documents that bundling does not change;
* `isSelfContained_of_bundle` : bundled documents;
* `bundle_again_iff` : when bundling once more changes nothing.
-/
import SchemaCodecs.Proofs.Bundle.Preservation

namespace SchemaCodecs

/-! ## Documents without references that lead out of them -/

/-- References that stay inside are met as ones that stay inside. -/
theorem isLocal_of_met (root : Path) {places : List Site} {repeated : Repeated}
    (known : ∀ entry ∈ repeated, Reference.isLocal entry.2 = true)
    (inside : ∀ site ∈ places, Reference.isLocal site.ref = true) :
    ∀ ref ∈ Site.met (redirectRef root root) repeated places, Reference.isLocal ref = true := by
  induction places generalizing repeated with
  | nil => simp [Site.met]
  | cons site rest ih =>
    obtain ⟨hsite, hrest⟩ := List.forall_mem_cons.1 inside
    have hcurrent : Reference.isLocal (site.current repeated) = true := by
      rw [Site.current]
      cases hlookup : site.label.bind fun label => repeated.lookup label with
      | none => exact hsite
      | some ref =>
        obtain ⟨label, -, hfound⟩ := Option.bind_eq_some_iff.1 hlookup
        obtain ⟨front, back, rfl, -⟩ := List.lookup_eq_some_iff.1 hfound
        exact known _ (List.mem_append_right _ List.mem_cons_self)
    rw [Site.met]
    refine List.forall_mem_cons.2 ⟨hcurrent, ih ?_ hrest⟩
    rw [Site.afterwards]
    split
    · exact known
    · rw [redirectRef_root_of_isLocal root hcurrent]
      exact List.forall_mem_cons.2 ⟨hcurrent, known⟩

/-- Nothing is gathered from references that stay inside the root document. -/
theorem gather_of_isLocal (tree : FileTree) (shelf : Shelf) (root : Path) (allowance : Nat)
    (gathering : Gathering) {refs : List Text} (h : ∀ ref ∈ refs, Reference.isLocal ref = true) :
    gather tree root shelf allowance gathering (refs.map (Task.follow root))
      = { shelf, outcome := .ok gathering } := by
  induction refs with
  | nil => rw [List.map_nil, gather]
  | cons ref rest ih =>
    obtain ⟨href, hrest⟩ := List.forall_mem_cons.1 h
    have means := meaning_root_of_isLocal root href
    rw [List.map_cons, gather]
    split
    · next meant =>
      rw [means] at meant
      cases meant
    · exact ih hrest
    · exact ih hrest
    · next meant =>
      rw [means] at meant
      cases meant

namespace Value

/-- Taking labels away repeats no keys and members. -/
theorem Distinct.unlabelled {v : Value} (h : v.Distinct) : v.unlabelled.Distinct := by
  induction h with
  | scalar s =>
    rw [Value.unlabelled]
    exact .scalar s
  | sequence _ ih =>
    rw [Value.unlabelled, unlabelledItems_eq_map]
    exact .sequence (List.forall_mem_map.2 ih)
  | mapping apart _ ih =>
    rw [Value.unlabelled, unlabelledEntries_eq_map]
    exact .mapping (List.pairwise_map.2 apart) (List.forall_mem_map.2 ih)
  | set apart =>
    rw [Value.unlabelled]
    exact .set apart
  | pair _ _ ihleft ihright =>
    rw [Value.unlabelled]
    exact .pair ihleft ihright

/-- Two ways of reading references that agree on those of a value replace them by the same. -/
theorem AgreeOn.withRefs_eq {f g : Text → Text} {v : Value} (distinct : v.Distinct)
    (h : AgreeOn f g v) : withRefs f v = withRefs g v := by
  induction distinct with
  | scalar s => rw [withRefs, withRefs]
  | sequence _ ih =>
    rw [agreeOn_sequence_iff] at h
    rw [withRefs, withRefs, withRefsItems_eq_map, withRefsItems_eq_map,
      List.map_congr_left fun v hv => ih v hv (h v hv)]
  | @mapping label entries apart _ ih =>
    rw [agreeOn_mapping_iff f g label apart] at h
    rw [withRefs, withRefs, withRefsEntries_eq_map, withRefsEntries_eq_map]
    refine congrArg (mapping label) (List.map_congr_left fun entry hentry => Prod.ext rfl ?_)
    have hagree := h entry hentry
    unfold AgreeAt at hagree
    show withRefsAt f entry = withRefsAt g entry
    unfold withRefsAt
    split
    · next hkey =>
      rw [if_pos hkey] at hagree
      unfold replaceRef
      split
      · next ref href => rw [hagree ref href]
      · rfl
    · next hkey =>
      rw [if_neg hkey] at hagree
      exact ih entry hentry hagree
  | set _ => rw [withRefs, withRefs]
  | pair _ _ _ _ => rw [withRefs, withRefs]

/-- A self-contained document in which repeated mappings say the same at each place comes to rest at
once. -/
theorem IsSelfContained.settles {v : Value} {held : Nat → Entries} (h : v.IsSelfContained)
    (shares : v.Shares held) (root : Path) : v.Settles root root where
  again _ _ := Or.inl rfl
  hidden site hsite other hother hlabel hsame := by
    obtain ⟨label, hlabel⟩ := Option.ne_none_iff_exists'.1 hlabel
    have href : site.ref = other.ref :=
      shares.ref_eq (List.mem_append_right _ hsite) (List.mem_append_left _ hother) hlabel
        (hsame.symm.trans hlabel)
    exact redirectRef_root_of_isLocal root (href ▸ h.inside other hother)

/-- Such a document is relocated to itself. -/
theorem IsSelfContained.unlabelled_relocated {v : Value} {held : Nat → Entries}
    (h : v.IsSelfContained) (distinct : v.Distinct) (shares : v.Shares held) (root : Path) :
    (v.relocated root root).unlabelled = v.unlabelled := by
  have hagree : AgreeOn (redirectRef root root) id v.unlabelled := fun site hsite =>
    redirectRef_root_of_isLocal root (((isSelfContained_unlabelled_iff v).2 h).inside site hsite)
  rw [Value.unlabelled_relocated (h.settles shares root) distinct shares, relocated_unlabelled,
    hagree.withRefs_eq distinct.unlabelled, withRefs_id]

end Value

/-- **Documents that bundling does not change.**  A self-contained document comes out as it is, and no
file is read. -/
theorem bundle_of_isSelfContained {document : Value} {held : Nat → Entries}
    (h : document.IsSelfContained) (distinct : document.Distinct) (shares : document.Shares held)
    (tree : FileTree) (shelf : Shelf) (root : Path) :
    bundle tree shelf root document = (shelf, ⟨[], .ok document.unlabelled⟩) := by
  have htasks : tasksFor root root document
      = (Site.met (redirectRef root root) [] document.sites).map (Task.follow root) := by
    rw [tasksFor, (Value.isEndless_eq_false_iff document).2 h.ends, Value.refsMet,
      h.ends.sitesMet_eq]
    exact List.append_nil _
  have hgather : gatherFrom tree shelf root document = { shelf, outcome := .ok {} } := by
    rw [gatherFrom, htasks]
    exact gather_of_isLocal tree shelf root _ {} (isLocal_of_met root (by simp) h.inside)
  rw [bundle, hgather, ← h.unlabelled_relocated distinct shares root]
  rfl

/-! ## Installing schemas in self-contained documents -/

namespace Value

@[simp] theorem text?_replaceLabelled (label : Nat) (inner : Entries) (v : Value) :
    (v.replaceLabelled label inner).text? = v.text? := by
  cases v with
  | mapping own old =>
    rw [replaceLabelled]
    split <;> rfl
  | _ => rfl

@[simp] theorem refOf?_replaceLabelledEntries (label : Nat) (inner entries : Entries) :
    refOf? (replaceLabelledEntries label inner entries) = refOf? entries := by
  rw [refOf?, refOf?, replaceLabelledEntries_eq_map, Entries.get?_map fun _ => rfl, Option.bind_map]
  congr 1
  funext v
  exact text?_replaceLabelled label inner v

theorem isSelfContained_mapping_congr (label other : Option Nat) (entries : Entries) :
    (mapping label entries).IsSelfContained ↔ (mapping other entries).IsSelfContained := by
  rw [isSelfContained_mapping_iff, isSelfContained_mapping_iff]

/-- A value with other entries in a repeated mapping is self-contained if the value and the mapping
with these entries are. -/
theorem IsSelfContained.replaceLabelled {own : Option Nat} {inner : Entries}
    (hinner : (mapping own inner).IsSelfContained) (label : Nat) {v : Value}
    (h : v.IsSelfContained) : (v.replaceLabelled label inner).IsSelfContained := by
  induction v using parts_induction with
  | scalar s => rwa [Value.replaceLabelled]
  | sequence items ih =>
    rw [isSelfContained_sequence_iff] at h
    rw [Value.replaceLabelled, replaceLabelledItems_eq_map, isSelfContained_sequence_iff,
      List.forall_mem_map]
    exact fun v hv => ih v hv (h v hv)
  | mapping other old ih =>
    rw [Value.replaceLabelled]
    split
    · exact (isSelfContained_mapping_congr _ _ _).1 hinner
    · rw [isSelfContained_mapping_iff] at h ⊢
      rw [refOf?_replaceLabelledEntries, replaceLabelledEntries_eq_map]
      exact ⟨h.1, List.forall_mem_map.2 fun entry hentry hkey =>
        ih entry hentry (h.2 entry hentry hkey)⟩
  | set members => rwa [Value.replaceLabelled]
  | pair first second _ _ => exact isSelfContained_pair _ _

variable {label own : Option Nat} {inner outer : Entries} {key : Text}

/-- The same for the repetitions of a mapping in some entries. -/
theorem IsSelfContained.replaceRepeated (hinner : (mapping own inner).IsSelfContained)
    (h : (mapping label outer).IsSelfContained) :
    (mapping label (replaceRepeated own inner outer)).IsSelfContained := by
  cases own with
  | none => exact h
  | some number =>
    -- The outer mapping is none of the repetitions, so its label is left out.
    have hreplaced := hinner.replaceLabelled number ((isSelfContained_mapping_congr _ none _).1 h)
    rw [Value.replaceLabelled, if_neg (by simp)] at hreplaced
    exact (isSelfContained_mapping_congr _ _ _).1 hreplaced

/-- A mapping that is put under a key of a self-contained mapping keeps it self-contained if it is so
itself. -/
theorem IsSelfContained.putMapping (hkey : key ≠ Reference.refKey)
    (hinner : (mapping own inner).IsSelfContained) (h : (mapping label outer).IsSelfContained) :
    (mapping label (putMapping key own inner outer)).IsSelfContained := by
  have hput : Value.putMapping key own inner outer
      = Entries.put (.text key) (mapping own inner) (Value.replaceRepeated own inner outer) := by
    cases own <;> rfl
  obtain ⟨href, hentries⟩ := (isSelfContained_mapping_iff _ _).1 (hinner.replaceRepeated h)
  rw [hput, isSelfContained_mapping_iff]
  refine ⟨?_, fun entry hentry hother => ?_⟩
  · rwa [refOf?, Entries.get?_put_of_ne hkey]
  · rcases Entries.mem_put hentry with hvalue | hentry
    · rwa [hvalue]
    · exact hentries entry hentry hother

/-- What stands under another key than that of references in a self-contained value is so too. -/
theorem IsSelfContained.under {v part : Value} (h : v.IsSelfContained)
    (hkey : key ≠ Reference.refKey) (hpart : v.under? key = some part) : part.IsSelfContained := by
  cases v with
  | mapping label entries => exact ((isSelfContained_mapping_iff _ _).1 h).2.of_get? hkey hpart
  | _ => cases hpart

/-- The reference of the table of schemas in a self-contained document stays inside. -/
theorem IsSelfContained.isLocal_of_componentSchema? {document : Value} (h : document.IsSelfContained)
    {ref : Text} (href : componentSchema? document Reference.refKey = some (text ref)) :
    Reference.isLocal ref = true := by
  obtain ⟨components, schemas, hcomponents, hschemas, hschema⟩ :=
    componentSchema?_eq_some_iff.1 href
  have hinside := (h.under (by decide) hcomponents).under (by decide) hschemas
  cases schemas with
  | mapping label entries =>
    refine ((isSelfContained_mapping_iff _ _).1 hinside).1 ref ?_
    rw [refOf?, show Entries.get? Reference.refKey entries = _ from hschema]
    rfl
  | _ => cases hschema

end Value

/-- A self-contained document stays so when self-contained schemas are installed, unless a text that
leads out of it becomes the reference of the table. -/
theorem isSelfContained_of_install {root : Path} {document final : Value} {bundled : List Bundled}
    (hdocument : document.IsSelfContained)
    (hbodies : ∀ schema ∈ bundled, (schema.body root).IsSelfContained)
    (h : install root document bundled = .ok final)
    (hkey : ∀ ref, componentSchema? final Reference.refKey = some (.text ref) →
      Reference.isLocal ref = true) : final.IsSelfContained := by
  by_cases hnone : bundled = []
  · rw [hnone] at h
    cases h
    exact hdocument
  · obtain ⟨label, entries, componentsLabel, components, schemasLabel, schemas, table, rfl,
      hcomponents, hschemas, hall, rfl⟩ := exists_parts_of_install hnone h
    have empty : (Value.table []).IsSelfContained := ⟨rfl, fun site hsite => nomatch hsite⟩
    have hinside : (Value.mapping componentsLabel components).IsSelfContained :=
      of_mappingPart hcomponents empty hdocument fun _ _ hv => hv.under (by decide)
    have hown : (Value.mapping schemasLabel schemas).IsSelfContained :=
      of_mappingPart hschemas empty hinside fun _ _ hv => hv.under (by decide)
    have htable : (Value.mapping schemasLabel table).IsSelfContained := by
      refine (Value.isSelfContained_mapping_iff _ _).2 ⟨fun ref href => hkey ref ?_,
        ((Value.isSelfContained_mapping_iff _ _).1 hown).2.installAll hbodies hall⟩
      obtain ⟨v, hv, htext⟩ := Option.bind_eq_some_iff.1 href
      obtain rfl := Value.eq_text_of_text? htext
      simpa only [componentSchema?, Value.putMapping, Value.under?, Entries.get?_put_self,
        Option.bind_some] using hv
    refine Value.IsSelfContained.putMapping (by decide) ?_ (htable.replaceRepeated hdocument)
    exact Value.IsSelfContained.putMapping (by decide) htable hinside

/-! ## Bundling again -/

section Again

variable {tree : FileTree} {shelf : Shelf} {root : Path} {document result : Value}

/-- **Bundled documents.**  Every reference that is met in a bundled document stays inside, except
possibly a text that stands as a component schema under the key of references. -/
theorem isSelfContained_of_bundle (h : (bundle tree shelf root document).2.outcome = .ok result) :
    result.IsSelfContained ↔ ∀ ref, componentSchema? result Reference.refKey = some (.text ref) →
      Reference.isLocal ref = true := by
  refine ⟨fun hresult ref href => hresult.isLocal_of_componentSchema? href, fun hkey => ?_⟩
  obtain ⟨gathering, final, hgather, hinstall, rfl⟩ := (bundle_outcome_eq_ok_iff _ _ _ _ _).1 h
  obtain ⟨hdocument, hschemas⟩ := hasMeaning_of_gatherFrom hgather
  rw [Value.isSelfContained_unlabelled_iff]
  refine isSelfContained_of_install (isSelfContained_relocated hdocument)
    (fun schema hschema =>
      (Value.isSelfContained_unlabelled_iff _).2 (isSelfContained_relocated (hschemas schema hschema)))
    hinstall fun ref href => hkey ref ?_
  rw [componentSchema?_unlabelled, href]
  rfl

/-- A text among the component schemas under the key of references is a text after redirection. -/
theorem exists_text_of_redirected (settled : Repeated) (redirect : Text → Text) {ref : Text}
    (h : componentSchema? document Reference.refKey = some (.text ref)) : ∃ kept,
      componentSchema? (document.redirectRefs settled redirect) Reference.refKey
        = some (.text kept) := by
  obtain ⟨components, schemas, hcomponents, hschemas, hschema⟩ := componentSchema?_eq_some_iff.1 h
  cases schemas with
  | mapping label entries =>
    have hkey : isRefKey (.text Reference.refKey) = true := (isRefKey_iff _).2 rfl
    have hown : Entries.get? Reference.refKey entries = some (.text ref) := hschema
    refine ⟨(label.bind fun label => settled.lookup label).getD (redirect ref),
      componentSchema?_eq_some_iff.2 ⟨components.redirectRefs settled redirect,
        (Value.mapping label entries).redirectRefs settled redirect, ?_, ?_, ?_⟩⟩
    · rw [Value.under?_redirectRefs _ _ (by decide), hcomponents, Option.map_some]
    · rw [Value.under?_redirectRefs _ _ (by decide), hschemas, Option.map_some]
    · rw [Value.redirectRefs, Value.under?, Value.redirectEntries_eq_map,
        Entries.get?_map fun _ => rfl, hown, Option.map_some, Value.redirectAt_of_text hkey]
  | _ => cases hschema

/-- A text among the component schemas of the root document under the key of references stays inside
once it is bundled. -/
theorem exists_local_of_bundle (h : (bundle tree shelf root document).2.outcome = .ok result)
    {ref : Text} (href : componentSchema? document Reference.refKey = some (.text ref)) :
    ∃ kept, componentSchema? result Reference.refKey = some (.text kept) ∧
      Reference.isLocal kept = true := by
  obtain ⟨gathering, final, hgather, hinstall, rfl⟩ := (bundle_outcome_eq_ok_iff _ _ _ _ _).1 h
  have hinside := isSelfContained_relocated (hasMeaning_of_gatherFrom hgather).1
  obtain ⟨kept, hkept⟩ : ∃ kept, componentSchema? (document.relocated root root) Reference.refKey
      = some (.text kept) := exists_text_of_redirected _ _ href
  refine ⟨kept, ?_, hinside.isLocal_of_componentSchema? hkept⟩
  -- A text is no self reference, so it stays whatever is installed.
  have hfinal : componentSchema? final Reference.refKey = some (.text kept) := by
    by_cases hnone : gathering.schemas = []
    · rw [hnone] at hinstall
      cases hinstall
      exact hkept
    · obtain ⟨schemas, schemas', hall, hbefore, hafter⟩ := componentSchema?_of_install hnone hinstall
      rw [hafter]
      rw [← hbefore] at hkept
      by_cases hnamed : Reference.refKey ∈ gathering.schemas.map (·.name)
      · obtain ⟨schema, hschema, hname⟩ := List.mem_map.1 hnamed
        have hentry := (get?_of_installAll hall (registered_of_gatherFrom hgather).names hschema).1
        rw [hname, hkept] at hentry
        exact hentry
      · rw [get?_of_installAll_of_notMem hall hnamed, hkept]
  rw [componentSchema?_unlabelled, hfinal]
  rfl

/-- **Bundling again.**  When a bundled document is bundled once more at the same place, whatever files
there are and whatever has been read, it comes out as it is and no file is read, just if no text that
leads out of it stands as a component schema under the key of references. -/
theorem bundle_again_iff (h : (bundle tree shelf root document).2.outcome = .ok result)
    {again : Value} {held : Nat → Entries} (hagain : again.unlabelled = result)
    (distinct : again.Distinct) (shares : again.Shares held) (tree' : FileTree) (shelf' : Shelf) :
    bundle tree' shelf' root again = (shelf', ⟨[], .ok result⟩) ↔
      ∀ ref, componentSchema? result Reference.refKey = some (.text ref) →
        Reference.isLocal ref = true := by
  subst hagain
  constructor
  · intro hbundle ref href
    have houtcome : (bundle tree' shelf' root again).2.outcome = .ok again.unlabelled := by
      rw [hbundle]
    rw [componentSchema?_unlabelled] at href
    obtain ⟨v, hv, htext⟩ := Option.map_eq_some_iff.1 href
    have hvalue : v = .text ref := by
      refine Value.eq_text_of_text? ?_
      rw [← Value.text?_unlabelled, htext]
      rfl
    obtain ⟨kept, hkept, hlocal⟩ := exists_local_of_bundle houtcome (hvalue ▸ hv)
    rw [componentSchema?_unlabelled, hv, Option.map_some, htext] at hkept
    cases hkept
    exact hlocal
  · intro hkey
    have hinside := (isSelfContained_of_bundle h).2 hkey
    rw [Value.isSelfContained_unlabelled_iff] at hinside
    exact bundle_of_isSelfContained hinside distinct shares tree' shelf' root

end Again

/-! ## A document that is bundled twice -/

namespace Twice

open SharedName (root refTo)
open OwnSchemas (documentOf document bundled)
open SlashedName (tree textSchema)

/-- A schema for texts that may stand at several places. -/
def sharedSchema : Value := .mapping (some 0) [(.text "type", .text "string")]

/-- The bundled document with both schemas for texts one and the same mapping. -/
def again : Value :=
  documentOf sharedSchema (refTo "#/components/schemas/x/y") [(.text "x/y", sharedSchema)]

/-- What the label stands for. -/
def held (_ : Nat) : Entries := [(.text "type", .text "string")]

/-- Repeated mappings of this document say the same at each place. -/
theorem shares_again : again.Shares held := by
  have hrefTo : ∀ ref, (refTo ref).Shares held := fun ref =>
    .mapping (by simp) (List.forall_mem_singleton.2 (.scalar _))
  have hshared : sharedSchema.Shares held :=
    .mapping (fun _ _ => rfl) (List.forall_mem_singleton.2 (.scalar _))
  have hschemas := @Value.Shares.mapping held none [(.text "z", sharedSchema),
    (.text "B", refTo "#/components/schemas/x/y"), (.text "x/y", sharedSchema)] (by simp)
    (by simp [hrefTo, hshared])
  have hcomponents := @Value.Shares.mapping held none [(.text schemasKey, _)] (by simp)
    (List.forall_mem_singleton.2 hschemas)
  exact .mapping (by simp) (by simpa [hrefTo] using hcomponents)

/-- This document repeats nothing. -/
theorem distinct_again : again.Distinct := by
  have hshared : sharedSchema.Distinct := .single (.scalar _)
  have hschemas := @Value.Distinct.mapping none [(.text "z", sharedSchema),
    (.text "B", refTo "#/components/schemas/x/y"), (.text "x/y", sharedSchema)]
    (by unfold Value.KeysApart; decide) (by simp [hshared, OwnSchemas.distinct_refTo])
  have hcomponents := @Value.Distinct.single none (.text schemasKey) _ hschemas
  exact .mapping (by unfold Value.KeysApart; decide)
    (by simpa [OwnSchemas.distinct_refTo] using hcomponents)

/-- The document is bundled again. -/
theorem bundle_again_iff_shared :
    (bundle tree {} root document).2.outcome = .ok bundled ∧ again.unlabelled = bundled ∧
      again.Distinct ∧ again.Shares held ∧
        bundle ⟨[]⟩ {} root again = ({}, ⟨[], .ok bundled⟩) := by
  refine ⟨OwnSchemas.bundle_outcome, rfl, distinct_again, shares_again, ?_⟩
  refine (bundle_again_iff OwnSchemas.bundle_outcome rfl distinct_again shares_again _ _).2 ?_
  intro ref href
  cases href

end Twice

/-! ## A text under the key of references -/

namespace RefText

open SharedName (root refTo)

/-- The file that the root document refers to. -/
def file : Path := { names := ["a.yaml"] }

/-- Its text: a reference to another file. -/
def partText : Text := "$ref: b.yaml#/X\n"

/-- What it stands for. -/
def part : Value := refTo "b.yaml#/X"

/-- The only file. -/
def tree : FileTree := ⟨[(file, .file (Text.asciiBytes partText))]⟩

/-- A document with a schema that only holds a reference, and others. -/
def documentOf (ref : Text) (others : Entries) : Value :=
  .table [(.text componentsKey, .table [(.text schemasKey,
    .table ((.text "A", refTo ref) :: others))])]

/-- The root document refers to the text of the reference. -/
def document : Value := documentOf "a.yaml#/$ref" []

/-- The text of the reference. -/
def target : Target := ⟨file, "/$ref"⟩

/-- What is gathered: the text. -/
def gathering : Gathering := ({} : Gathering).extend target (.text "b.yaml#/X")

/-- The bundled document: the text has become a component schema. -/
def bundled : Value :=
  documentOf "#/components/schemas/$ref" [(.text Reference.refKey, .text "b.yaml#/X")]

/-- What is read from the file. -/
theorem readDocument_file : readDocument tree file = .ok part := by
  refine @readDocument_of_ascii tree file partText _
    (.mapping (some 0) [(.text "$ref", .text "b.yaml#/X")]) (Text.toList_ofString_ofList _) rfl ?_ ?_ ?_
  · decide
  · decide +kernel
  · decide

/-- The root document is bundled without a fault. -/
theorem bundle_outcome : (bundle tree {} root document).2.outcome = .ok bundled := by
  have hsource : sourceAt? tree {} target = some (.text "b.yaml#/X") :=
    (sourceAt?_eq_some_iff _ _ _ _).2 ⟨part, readDocument_file, rfl⟩
  have hgather : (gatherFrom tree {} root document).outcome = .ok gathering := by
    rw [gatherFrom_outcome_eq_ok_iff]
    exact .new rfl (by decide) hsource rfl (.close _ _ (.done _))
  have hinstall : (install root (document.relocated root root) gathering.schemas).toOption
      = some bundled := rfl
  rw [bundle_outcome_eq_ok_iff]
  exact ⟨gathering, bundled, hgather, eq_ok_of_toOption hinstall, rfl⟩

/-- The text leads out of the bundled document, which does not come out of bundling again as it is. -/
theorem bundle_again_differs : (bundle tree {} root document).2.outcome = .ok bundled ∧
    (bundle tree {} root bundled).2.outcome ≠ .ok bundled := by
  refine ⟨bundle_outcome, fun hagain => ?_⟩
  have href : componentSchema? bundled Reference.refKey = some (.text "b.yaml#/X") := rfl
  obtain ⟨kept, hkept, hlocal⟩ := exists_local_of_bundle hagain href
  cases hkept
  revert hlocal
  decide

end RefText

end SchemaCodecs
