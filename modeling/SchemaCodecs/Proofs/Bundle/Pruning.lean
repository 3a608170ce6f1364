/-
# References beside lost siblings

In a document that has lost siblings of references the same references are met, and a pointer that
still leads to a part leads to what has become of this part.  Relocation does the same to both
documents, whatever labels their repeated mappings carry.

* `Pruned.refsMet_eq` : the references that are met;
* `Pruned.part` : parts of a document;
* `Pruned.relocated`, `Pruned.unlabelled` : relocation.
-/
import SchemaCodecs.Proofs.Bundle.SelfContained
import SchemaCodecs.Proofs.Bundle.Unfolding
import SchemaCodecs.Proofs.Schema.Siblings

namespace SchemaCodecs

open Schema

/-! ## Other labels -/

namespace Site

/-- A site with another label. -/
def relabelled (rename : Nat → Nat) (site : Site) : Site :=
  ⟨site.label.map rename, site.ref⟩

/-- The references of repeated mappings, which carry other labels. -/
def renamed (rename : Nat → Nat) (repeated : Repeated) : Repeated :=
  repeated.map fun entry => (rename entry.1, entry.2)

variable {rename : Nat → Nat} (injective : Function.Injective rename)

include injective in
/-- Under its other label a repeated mapping has the same reference. -/
theorem lookup_renamed (label : Option Nat) (repeated : Repeated) :
    ((label.map rename).bind fun label => (renamed rename repeated).lookup label)
      = label.bind fun label => repeated.lookup label := by
  cases label with
  | none => rfl
  | some number =>
    rw [Option.map_some, Option.bind_some, Option.bind_some]
    induction repeated with
    | nil => rfl
    | cons entry rest ih =>
      have hsame : (rename number == rename entry.1) = (number == entry.1) := by
        rw [Bool.eq_iff_iff, beq_iff_eq, beq_iff_eq]
        exact injective.eq_iff
      rw [renamed, List.map_cons, List.lookup_cons, List.lookup_cons, hsame]
      split
      · rfl
      · exact ih

include injective in
/-- Meeting a site with another label has the same effect. -/
theorem afterwards_renamed (redirect : Text → Text) (repeated : Repeated) (site : Site) :
    (site.relabelled rename).afterwards redirect (renamed rename repeated)
      = renamed rename (site.afterwards redirect repeated) := by
  have hcurrent : (site.relabelled rename).current (renamed rename repeated)
      = site.current repeated := by
    rw [current, current, relabelled, lookup_renamed injective]
  rw [afterwards, afterwards, hcurrent]
  cases hlabel : site.label with
  | none => simp only [relabelled, hlabel, Option.map_none]
  | some number =>
    simp only [relabelled, hlabel, Option.map_some]
    rfl

include injective in
/-- The references of sites with other labels read the same when they are met. -/
theorem met_relabelled (redirect : Text → Text) (repeated : Repeated) (sites : List Site) :
    met redirect (renamed rename repeated) (sites.map (relabelled rename))
      = met redirect repeated sites := by
  induction sites generalizing repeated with
  | nil => rfl
  | cons site rest ih =>
    rw [List.map_cons, met, met, afterwards_renamed injective, ih, current, current, relabelled,
      lookup_renamed injective]

include injective in
/-- In the end repeated mappings hold the same references under their other labels. -/
theorem settled_relabelled (redirect : Text → Text) (sites : List Site) :
    settled redirect (sites.map (relabelled rename)) = renamed rename (settled redirect sites) := by
  have hfold : ∀ repeated : Repeated,
      (sites.map (relabelled rename)).foldl (afterwards redirect) (renamed rename repeated)
        = renamed rename (sites.foldl (afterwards redirect) repeated) := by
    induction sites with
    | nil => exact fun repeated => rfl
    | cons site rest ih =>
      intro repeated
      rw [List.map_cons, List.foldl_cons, List.foldl_cons, afterwards_renamed injective]
      exact ih _
  exact hfold []

end Site

/-! ## References -/

theorem mem_of_refOf? {entries : Entries} {ref : Text} (h : refOf? entries = some ref) :
    (.text Reference.refKey, .text ref) ∈ entries := by
  obtain ⟨v, hv, htext⟩ := Option.bind_eq_some_iff.1 h
  rw [Value.eq_text_of_text? htext] at hv
  exact Value.mem_of_get? hv

namespace Schema

variable {rename : Nat → Nat} {role : Role} {v w : Value}

theorem Pruned.text?_eq (h : Pruned rename role v w) : w.text? = v.text? := by
  cases h <;> rfl

/-- Entries with the same texts have the same reference. -/
theorem refOf?_eq_of_match {entries others : Entries}
    (h : EntriesMatch (fun _ v w => w.text? = v.text?) entries others) :
    refOf? others = refOf? entries := by
  rw [refOf?, refOf?]
  rcases h.get? Reference.refKey with ⟨hv, hw⟩ | ⟨v, w, hv, hw, htext⟩
  · rw [hv, hw]
  · rw [hv, hw]
    exact htext

/-- In items with the same references under other labels the same references are found. -/
theorem sitesOfItems_relabelled {items others : List Value}
    (h : List.Forall₂ (fun v w => w.sites = v.sites.map (Site.relabelled rename)) items others) :
    Value.sitesOfItems others = (Value.sitesOfItems items).map (Site.relabelled rename) := by
  induction h with
  | nil => rfl
  | cons hfirst _ ih => rw [Value.sitesOfItems, Value.sitesOfItems, List.map_append, hfirst, ih]

/-- In entries with the same references under other labels the same references are found. -/
theorem sitesOfEntries_relabelled {entries others : Entries}
    (h : EntriesMatch (fun _ v w => w.sites = v.sites.map (Site.relabelled rename)) entries others) :
    Value.sitesOfEntries others = (Value.sitesOfEntries entries).map (Site.relabelled rename) := by
  induction h with
  | nil => rfl
  | @cons a b _ _ hfirst _ ih =>
    obtain ⟨key, v⟩ := a
    obtain ⟨key', w⟩ := b
    obtain ⟨rfl, hsites⟩ := hfirst
    rw [Value.sitesOfEntries, Value.sitesOfEntries, List.map_append, ih]
    congr 1
    split
    · rfl
    · exact hsites

/-- **References.**  The same references are found, under other labels. -/
theorem Pruned.sites_eq (h : Pruned rename role v w) :
    w.sites = v.sites.map (Site.relabelled rename) := by
  induction h with
  | scalar role s => rfl
  | again loose place number => rfl
  | set role members => rfl
  | sequence length_eq _ ih =>
    exact sitesOfItems_relabelled (List.forall₂_iff_zip.2 ⟨length_eq, fun hmem => ih _ _ hmem⟩)
  | pair _ _ _ _ => rfl
  | @mapping role label label' entries others own keys_eq parts ih =>
    have href : refOf? others = refOf? entries :=
      refOf?_eq_of_match (entriesMatch_iff_zip.2 ⟨keys_eq, fun a b hmem => (parts a b hmem).text?_eq⟩)
    have hinner := sitesOfEntries_relabelled (entriesMatch_iff_zip.2 ⟨keys_eq, ih⟩)
    rw [Value.sites, Value.sites, href, hinner, List.map_append]
    congr 1
    cases hown : refOf? entries with
    | none => rfl
    | some ref =>
      rw [own ref (mem_of_refOf? hown)]
      rfl
  | @reference role label entries ref loses found siblings =>
    have hown : refOf? entries = some ref := by rw [refOf?, found]; rfl
    have hinner : Value.sitesOfEntries entries = [] := by
      rw [Value.sitesOfEntries_eq_flatMap, List.flatMap_eq_nil_iff]
      intro entry hentry
      split
      · rfl
      · next hkey => exact (siblings entry hentry (Bool.eq_false_iff.2 hkey)).sites_eq
    have hleft : refOf? [(.text Reference.refKey, .text ref)] = some ref := rfl
    rw [Value.sites, Value.sites, hown, hinner, hleft]
    rfl

/-- Through items with the same ways under other labels the way is the same. -/
theorem courseOfItems_relabelled {items others : List Value}
    (h : List.Forall₂ (fun v w => w.course = v.course.map (Site.relabelled rename)) items others) :
    Value.courseOfItems others = (Value.courseOfItems items).map (Site.relabelled rename) := by
  induction h with
  | nil => rfl
  | cons hfirst _ ih =>
    rw [Value.courseOfItems, Value.courseOfItems, Course.map_andThen, hfirst, ih]

/-- Through entries with the same ways under other labels the way is the same. -/
theorem courseOfEntries_relabelled {entries others : Entries}
    (h : EntriesMatch (fun _ v w => w.course = v.course.map (Site.relabelled rename)) entries others) :
    Value.courseOfEntries others = (Value.courseOfEntries entries).map (Site.relabelled rename) := by
  induction h with
  | nil => rfl
  | @cons a b _ _ hfirst _ ih =>
    obtain ⟨key, v⟩ := a
    obtain ⟨key', w⟩ := b
    obtain ⟨rfl, hcourse⟩ := hfirst
    rw [Value.courseOfEntries, Value.courseOfEntries, Course.map_andThen, ih]
    congr 1
    split
    · rfl
    · exact hcourse

/-- **Ways.**  The way through the value is the same, under other labels. -/
theorem Pruned.course_eq (h : Pruned rename role v w) :
    w.course = v.course.map (Site.relabelled rename) := by
  induction h with
  | scalar role s => cases s <;> rfl
  | again loose place number => rfl
  | set role members => rfl
  | sequence length_eq _ ih =>
    rw [Value.course, Value.course, Course.map_enclosed]
    exact congrArg Course.enclosed
      (courseOfItems_relabelled (List.forall₂_iff_zip.2 ⟨length_eq, fun hmem => ih _ _ hmem⟩))
  | pair _ _ _ _ => rfl
  | @mapping role label label' entries others own keys_eq parts ih =>
    have href : refOf? others = refOf? entries :=
      refOf?_eq_of_match (entriesMatch_iff_zip.2 ⟨keys_eq, fun a b hmem => (parts a b hmem).text?_eq⟩)
    have hinner := courseOfEntries_relabelled (entriesMatch_iff_zip.2 ⟨keys_eq, ih⟩)
    rw [Value.course, Value.course, Course.map_enclosed, Course.map_andThen, href, hinner]
    congr 2
    cases hown : refOf? entries with
    | none => rfl
    | some ref =>
      rw [own ref (mem_of_refOf? hown)]
      rfl
  | @reference role label entries ref loses found siblings =>
    have hown : refOf? entries = some ref := by rw [refOf?, found]; rfl
    have hleft : refOf? [(.text Reference.refKey, .text ref)] = some ref := rfl
    rw [Value.course, Value.course, hown, (Value.courseOfEntries_eq_empty_iff entries).2 siblings,
      hleft]
    rfl

@[simp] theorem relabelled_ref (site : Site) : (site.relabelled rename).ref = site.ref :=
  rfl

theorem Pruned.refsMet_eq (injective : Function.Injective rename) (h : Pruned rename role v w)
    (root base : Path) : w.refsMet root base = v.refsMet root base := by
  rw [Value.refsMet, Value.refsMet, Value.sitesMet_eq_map h.course_eq relabelled_ref]
  exact Site.met_relabelled injective (redirectRef root base) [] (v.sitesMet base)

theorem Pruned.tasksFor_eq (injective : Function.Injective rename) (h : Pruned rename role v w)
    (root base : Path) : tasksFor root base w = tasksFor root base v := by
  rw [tasksFor, tasksFor, h.refsMet_eq injective, Value.isEndless_eq_of_map h.course_eq]

end Schema

/-! ## Parts -/

namespace Schema

variable {rename : Nat → Nat} {document other selected : Value}

/-- An index in one of two lists that match item by item selects matching items. -/
theorem exists_itemAt?_of_zip {α β : Type} {R : α → β → Prop} {items : List α} {others : List β}
    (length_eq : items.length = others.length) (parts : ∀ a b, (a, b) ∈ items.zip others → R a b)
    {index : Int} {b : β} (hitem : Reference.itemAt? others index = some b) :
    ∃ a, Reference.itemAt? items index = some a ∧ R a b := by
  have hat : ∀ place : Nat, others[place]? = some b → ∃ a, items[place]? = some a ∧ R a b := by
    intro place hplace
    obtain ⟨hlt, -⟩ := List.getElem?_eq_some_iff.1 hplace
    have hget : items[place]? = some items[place] := List.getElem?_eq_getElem (length_eq ▸ hlt)
    refine ⟨items[place], hget, parts _ _ (List.mem_iff_getElem?.2 ⟨place, ?_⟩)⟩
    exact List.getElem?_zip_eq_some.2 ⟨hget, hplace⟩
  rw [Reference.itemAt?] at hitem ⊢
  rw [length_eq]
  split at hitem
  · next hle => simpa [hle] using hat _ hitem
  · next hneg =>
    split at hitem
    · next hle => simpa [hneg, hle] using hat _ hitem
    · cases hitem

/-- A token that still selects a part selects what has become of it. -/
theorem Pruned.select {token : List Point} (h : Pruned rename .ignored document other)
    (hselected : Reference.select? token other = some selected) :
    ∃ before, Reference.select? token document = some before ∧
      Pruned rename .ignored before selected := by
  cases h with
  | scalar | again | set | pair => cases hselected
  | @sequence _ items others length_eq parts =>
    rw [Reference.select?] at hselected ⊢
    obtain ⟨index, hindex, hitem⟩ := Option.bind_eq_some_iff.1 hselected
    rw [hindex, Option.bind_some]
    exact exists_itemAt?_of_zip length_eq parts hitem
  | @mapping _ label label' entries others own keys_eq parts =>
    have hmatch : EntriesMatch (fun _ => Pruned rename .ignored) entries others :=
      entriesMatch_iff_zip.2 ⟨keys_eq, parts⟩
    rw [Reference.select?] at hselected ⊢
    rcases hmatch.get? (Text.ofList token) with ⟨-, hw⟩ | ⟨v, w, hv, hw, hpruned⟩
    · rw [hw] at hselected
      cases hselected
    · rw [hw] at hselected
      cases hselected
      exact ⟨v, hv, hpruned⟩
  | @reference _ label entries ref loses found siblings =>
    rw [Reference.select?] at hselected ⊢
    by_cases hkey : Reference.refKey = Text.ofList token
    · rw [← hkey] at hselected ⊢
      cases hselected
      exact ⟨_, found, .scalar _ _⟩
    · rw [Entries.get?_cons_of_ne fun heq => hkey (Scalar.text.inj heq)] at hselected
      cases hselected

/-- Silent values stay silent when their marks are filled. -/
theorem isSilent_fill {whole : Value} (foreign : whole.text? = none) {v : Value} (h : v.IsSilent)
    (levels : Nat) : (whole.fill levels v).IsSilent := by
  induction v using Value.parts_induction generalizing levels with
  | scalar s =>
    cases s with
    | again place => cases h
    | _ => exact h
  | sequence items ih =>
    rw [Value.isSilent_sequence_iff] at h
    rw [Value.fill, Value.fillItems_eq_map, Value.isSilent_sequence_iff, List.forall_mem_map]
    exact fun item hitem => ih item hitem (h item hitem) _
  | mapping label entries ih =>
    obtain ⟨hnone, hentries⟩ := (Value.isSilent_mapping_iff label entries).1 h
    rw [Value.fill, Value.isSilent_mapping_iff, Value.refOf?_fillEntries foreign,
      Value.fillEntries_eq_map, List.forall_mem_map]
    exact ⟨hnone, fun entry hentry hkey => ih entry hentry (hentries entry hentry hkey) _⟩
  | set members => rfl
  | pair first second _ _ => rfl

/-- Filling marks with what has become of a value keeps what has been lost, where nothing is read. -/
theorem Pruned.fill {role : Role} {whole whole' v w : Value} (foreign : whole.text? = none)
    (hwhole : Pruned rename .ignored whole whole') (h : Pruned rename role v w)
    (unread : role = .ignored) (levels : Nat) :
    Pruned rename .ignored (whole.fill levels v) (whole'.fill levels w) := by
  induction h generalizing levels with
  | scalar role s =>
    cases s with
    | again place =>
      rw [Value.fill, Value.fill]
      split
      · exact hwhole
      · exact .scalar _ _
    | _ => exact .scalar _ _
  | again loose place number =>
    rw [Value.fill, Value.fill]
    split
    · exact hwhole
    · exact .again (by decide) place number
  | set role members => exact .set _ members
  | sequence length_eq _ ih =>
    subst unread
    rw [Value.fill, Value.fill, Value.fillItems_eq_map, Value.fillItems_eq_map]
    refine .sequence (by simpa using length_eq) fun v w hmem => ?_
    rw [List.zip_map, List.mem_map] at hmem
    obtain ⟨⟨v, w⟩, hmem, heq⟩ := hmem
    cases heq
    exact ih v w hmem rfl _
  | pair _ _ ihleft ihright =>
    subst unread
    exact .pair (ihleft rfl levels) (ihright rfl levels)
  | @mapping role label label' entries others own keys_eq parts ih =>
    subst unread
    have hmatch : EntriesMatch (fun _ v w => Pruned rename .ignored (whole.fill (levels + 1) v)
        (whole'.fill (levels + 1) w)) entries others :=
      entriesMatch_iff_zip.2 ⟨keys_eq, fun a b hmem => ih a b hmem rfl _⟩
    rw [Value.fill, Value.fill, Value.fillEntries_eq_map, Value.fillEntries_eq_map]
    refine .of_entriesMatch (fun ref hmem => ?_) (hmatch.map fun _ _ _ _ hpruned => hpruned)
    obtain ⟨⟨key, v⟩, hentry, heq⟩ := List.mem_map.1 hmem
    obtain ⟨rfl, hvalue⟩ := Prod.mk.inj heq
    have htext := congrArg Value.text? hvalue
    rw [Value.text?_fill foreign] at htext
    exact own ref (Value.eq_text_of_text? htext ▸ hentry)
  | @reference role label entries ref loses found siblings =>
    rw [Value.fill, Value.fillEntries_eq_map]
    refine .reference (Or.inr rfl) ?_ (List.forall_mem_map.2 fun entry hentry hkey => ?_)
    · rw [Entries.get?_map fun _ => rfl, found]
      rfl
    · exact isSilent_fill foreign (siblings entry hentry hkey) _

theorem text?_eq_none_of_select? {token : List Point} {v part : Value}
    (h : Reference.select? token v = some part) : v.text? = none := by
  rcases Value.select?_eq_some h with ⟨items, rfl, -⟩ | ⟨label, entries, rfl, -⟩ <;> rfl

/-- **Parts.**  A pointer that still leads to a part leads to what has become of it. -/
theorem Pruned.part {pointer : Text} (h : Pruned rename .ignored document other)
    (hpart : other.partAt? pointer = some selected) :
    ∃ before, document.partAt? pointer = some before ∧
      Pruned rename .ignored before selected := by
  refine Value.exists_partAt?_of_related (fun token v w next hpruned hnext => ?_) h hpart
  obtain ⟨inner, hinner, rfl⟩ := (Value.enter?_eq_some_iff _ _ _).1 hnext
  obtain ⟨before, hbefore, hrelated⟩ := hpruned.select hinner
  exact ⟨v.fill 0 before, (Value.enter?_eq_some_iff _ _ _).2 ⟨before, hbefore, rfl⟩,
    hpruned.fill (text?_eq_none_of_select? hbefore) hrelated rfl 0⟩

end Schema

/-! ## Relocation -/

section Redirection

variable {settled : Repeated} {redirect : Text → Text}

/-- Redirection finds nothing to meet where there is nothing. -/
theorem isSilent_redirectRefs {v : Value} (h : v.IsSilent) :
    (Value.redirectRefs settled redirect v).IsSilent := by
  induction v using Value.parts_induction generalizing redirect with
  | scalar s => exact h
  | sequence items ih =>
    rw [Value.isSilent_sequence_iff] at h
    rw [Value.redirectRefs, Value.redirectItems_eq_map, Value.isSilent_sequence_iff,
      List.forall_mem_map]
    exact fun item hitem => ih item hitem (h item hitem)
  | mapping label entries ih =>
    obtain ⟨hnone, hentries⟩ := (Value.isSilent_mapping_iff label entries).1 h
    rw [Value.redirectRefs, Value.redirectEntries_eq_map, Value.isSilent_mapping_iff,
      List.forall_mem_map]
    refine ⟨?_, fun entry hentry hkey => ?_⟩
    · rw [Value.refOf?_redirected, hnone]
      rfl
    · rw [Value.redirectAt_of_other hkey]
      exact ih entry hentry (hentries entry hentry hkey)
  | set members => rfl
  | pair first second _ _ => rfl

/-- Without labels nothing is met where nothing is met with them. -/
theorem isSilent_unlabelled {v : Value} (h : v.IsSilent) : v.unlabelled.IsSilent := by
  induction v using Value.parts_induction with
  | scalar s => exact h
  | sequence items ih =>
    rw [Value.isSilent_sequence_iff] at h
    rw [Value.unlabelled, Value.unlabelledItems_eq_map, Value.isSilent_sequence_iff,
      List.forall_mem_map]
    exact fun item hitem => ih item hitem (h item hitem)
  | mapping label entries ih =>
    obtain ⟨hnone, hentries⟩ := (Value.isSilent_mapping_iff label entries).1 h
    rw [Value.unlabelled, Value.isSilent_mapping_iff]
    refine ⟨(Value.refOf?_unlabelledEntries entries).trans hnone, ?_⟩
    rw [Value.unlabelledEntries_eq_map, List.forall_mem_map]
    exact fun entry hentry hkey => ih entry hentry (hentries entry hentry hkey)
  | set members => rfl
  | pair first second _ _ => rfl

end Redirection

namespace Schema

variable {rename : Nat → Nat} {role : Role} {v w : Value}

/-- Sequences have lost what their items have lost, after the items have been changed in a way that
keeps it. -/
theorem Pruned.sequence_map {other : Nat → Nat} {items others : List Value}
    {change change' : Value → Value} (length_eq : items.length = others.length)
    (parts : ∀ v w, (v, w) ∈ items.zip others → Pruned other role.item (change v) (change' w)) :
    Pruned other role (.sequence (items.map change)) (.sequence (others.map change')) := by
  refine .sequence (by simpa using length_eq) ?_
  intro v w hmem
  rw [List.zip_map, List.mem_map] at hmem
  obtain ⟨⟨v, w⟩, hmem, heq⟩ := hmem
  cases heq
  exact parts v w hmem

/-- Redirecting what stands under a key of both values keeps what one has lost, if a reference under
this key is redirected in both alike. -/
theorem Pruned.redirectAt {settled settled' : Repeated} {redirect : Text → Text}
    {own own' : Option Text} {key : Scalar} (h : Pruned rename role v w)
    (redirected : ∀ redirect, Pruned rename role (Value.redirectRefs settled redirect v)
      (Value.redirectRefs settled' redirect w))
    (same : isRefKey key = true → ∀ ref, v = .text ref → own' = own) :
    Pruned rename role (Value.redirectAt settled redirect own (key, v))
      (Value.redirectAt settled' redirect own' (key, w)) := by
  cases hkey : isRefKey key with
  | false =>
    rw [Value.redirectAt_of_other hkey, Value.redirectAt_of_other hkey]
    exact redirected redirect
  | true =>
    by_cases htext : ∃ ref, v = .text ref
    · obtain ⟨ref, rfl⟩ := htext
      cases h
      rw [Value.redirectAt_of_text hkey, Value.redirectAt_of_text hkey, same hkey ref rfl]
      exact .scalar _ _
    · have hforeign : ∀ ref, v ≠ .text ref := fun ref heq => htext ⟨ref, heq⟩
      have hforeign' : ∀ ref, w ≠ .text ref := by
        rintro ref rfl
        exact hforeign ref (Value.eq_text_of_text? h.text?_eq.symm)
      rw [Value.redirectAt_of_foreign hkey hforeign, Value.redirectAt_of_foreign hkey hforeign']
      exact redirected id

/-- Redirecting the references of both values keeps what one has lost. -/
theorem Pruned.redirectRefs (injective : Function.Injective rename) (h : Pruned rename role v w)
    (settled : Repeated) (redirect : Text → Text) :
    Pruned rename role (Value.redirectRefs settled redirect v)
      (Value.redirectRefs (Site.renamed rename settled) redirect w) := by
  induction h generalizing redirect with
  | scalar role s => exact .scalar role s
  | again loose place number => exact .again loose place number
  | set role members => exact .set role members
  | sequence length_eq _ ih =>
    rw [Value.redirectRefs, Value.redirectRefs, Value.redirectItems_eq_map,
      Value.redirectItems_eq_map]
    exact .sequence_map length_eq fun v w hmem => ih v w hmem redirect
  | pair _ _ ihleft ihright => exact .pair (ihleft id) (ihright id)
  | @mapping role label label' entries others own keys_eq parts ih =>
    have hmatch : EntriesMatch (fun key v w => Pruned rename (role.entry key) v w ∧
        ∀ redirect, Pruned rename (role.entry key) (Value.redirectRefs settled redirect v)
          (Value.redirectRefs (Site.renamed rename settled) redirect w)) entries others :=
      entriesMatch_iff_zip.2 ⟨keys_eq, fun a b hmem => ⟨parts a b hmem, ih a b hmem⟩⟩
    rw [Value.redirectRefs, Value.redirectRefs, Value.redirectEntries_eq_map,
      Value.redirectEntries_eq_map]
    refine Pruned.of_entriesMatch ?_ (hmatch.map ?_)
    · -- A reference after redirection is one before it.
      intro ref hmem
      obtain ⟨⟨key, v⟩, hentry, heq⟩ := List.mem_map.1 hmem
      obtain ⟨rfl, hvalue⟩ := Prod.mk.inj heq
      have htext := congrArg Value.text? hvalue
      rw [Value.text?_redirectAt ((isRefKey_iff _).2 rfl)] at htext
      obtain ⟨before, hbefore, -⟩ := Option.map_eq_some_iff.1 htext
      exact own before (Value.eq_text_of_text? hbefore ▸ hentry)
    · rintro ⟨key, v⟩ hentry ⟨key', w⟩ rfl ⟨hpruned, hredirected⟩
      refine hpruned.redirectAt hredirected fun hkey ref hvalue => ?_
      obtain rfl : v = .text ref := hvalue
      rw [(isRefKey_iff _).1 hkey] at hentry
      rw [own ref hentry, Site.lookup_renamed injective]
  | @reference role label entries ref loses found siblings =>
    rw [Value.redirectRefs, Value.redirectRefs, Value.redirectEntries_eq_map,
      Value.redirectEntries_eq_map, Site.lookup_renamed injective]
    have hkey : isRefKey (.text Reference.refKey) = true := (isRefKey_iff _).2 rfl
    rw [List.map_singleton, Value.redirectAt_of_text hkey]
    refine .reference loses ?_ ?_
    · rw [Entries.get?_map fun _ => rfl, found, Option.map_some, Value.redirectAt_of_text hkey]
    · rw [List.forall_mem_map]
      intro entry hentry hother
      rw [Value.redirectAt_of_other hother]
      exact isSilent_redirectRefs (siblings entry hentry hother)

/-- **Relocation.**  Relocating both values keeps what one has lost. -/
theorem Pruned.relocated (injective : Function.Injective rename) (h : Pruned rename role v w)
    (root base : Path) : Pruned rename role (v.relocated root base) (w.relocated root base) := by
  have hredirected := h.redirectRefs injective
    (Site.settled (redirectRef root base) v.sites) (redirectRef root base)
  rw [← Site.settled_relabelled injective, ← h.sites_eq] at hredirected
  exact hredirected

/-- Taking the labels of both values away keeps what one has lost. -/
theorem Pruned.unlabelled (h : Pruned rename role v w) (other : Nat → Nat) :
    Pruned other role v.unlabelled w.unlabelled := by
  induction h with
  | scalar role s => exact .scalar role s
  | again loose place number => exact .again loose place number
  | set role members => exact .set role members
  | @sequence role items others length_eq parts ih =>
    rw [Value.unlabelled, Value.unlabelled, Value.unlabelledItems_eq_map,
      Value.unlabelledItems_eq_map]
    exact .sequence_map length_eq ih
  | pair _ _ ihleft ihright => exact .pair ihleft ihright
  | @mapping role label label' entries others own keys_eq parts ih =>
    have hmatch : EntriesMatch (fun key v w => Pruned other (role.entry key) v.unlabelled
        w.unlabelled) entries others :=
      entriesMatch_iff_zip.2 ⟨keys_eq, ih⟩
    rw [Value.unlabelled, Value.unlabelled, Value.unlabelledEntries_eq_map,
      Value.unlabelledEntries_eq_map]
    exact Pruned.of_entriesMatch (fun _ _ => rfl) (hmatch.map fun _ _ _ _ hpruned => hpruned)
  | @reference role label entries ref loses found siblings =>
    refine .reference loses ?_ ?_
    · rw [Value.get?_unlabelledEntries, found]
      rfl
    · rw [Value.unlabelledEntries_eq_map, List.forall_mem_map]
      intro entry hentry hother
      exact isSilent_unlabelled (siblings entry hentry hother)

end Schema

end SchemaCodecs
