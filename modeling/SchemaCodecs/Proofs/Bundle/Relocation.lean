/-
# Relocation of values without repetitions

In a value in which no mapping stands at several places, relocation replaces each reference on its
own.  Two values that are the same stay so under two ways of reading references exactly when the
two ways agree on the references in them.

* `Value.withRefs` : a value with each reference read in a given way;
* `Value.relocated_eq_withRefs` : relocation is such a replacement;
* `Value.same_withRefs_iff` : when two replacements give the same value.
-/
import SchemaCodecs.Bundle.Relocate
import SchemaCodecs.Proofs.Value.Entries
import SchemaCodecs.Yaml.Document

namespace SchemaCodecs

/-! ## Keys of references -/

@[simp] theorem isRefKey_iff (key : Scalar) : isRefKey key = true ↔ key = .text Reference.refKey := by
  rw [isRefKey, Scalar.same_text_iff]

theorem isRefKey_text_of_ne {key : Text} (h : key ≠ Reference.refKey) :
    isRefKey (.text key) = false := by
  rw [Bool.eq_false_iff, ne_eq, isRefKey_iff]
  exact fun heq => h (Scalar.text.inj heq)

theorem isRefKey_congr {a b : Scalar} (h : a.same b = true) : isRefKey a = isRefKey b := by
  rw [isRefKey, isRefKey, Scalar.same_comm a, Scalar.same_comm b]
  exact Scalar.same_congr_right h _

namespace Value

/-! ## Replacing references -/

/-- What stands under the key of a reference, with the reference replaced if it is a text. -/
def replaceRef (f : Text → Text) : Value → Value
  | scalar (.text ref) => text (f ref)
  | v => v

/-- What is no reference is not replaced. -/
theorem replaceRef_of_foreign (f : Text → Text) {v : Value} (h : ∀ ref, v ≠ text ref) :
    replaceRef f v = v := by
  unfold replaceRef
  split
  · next ref => exact absurd rfl (h ref)
  · rfl

mutual

/-- A value with every reference replaced.  What stands under the key of a reference or in a pair
keeps the references inside it. -/
def withRefs (f : Text → Text) : Value → Value
  | scalar s => scalar s
  | sequence items => sequence (withRefsItems f items)
  | mapping label entries => mapping label (withRefsEntries f entries)
  | set members => set members
  | pair first second => pair first second

/-- The items of a sequence with every reference replaced. -/
def withRefsItems (f : Text → Text) : List Value → List Value
  | [] => []
  | item :: rest => withRefs f item :: withRefsItems f rest

/-- The entries of a mapping with every reference replaced. -/
def withRefsEntries (f : Text → Text) : List (Scalar × Value) → List (Scalar × Value)
  | [] => []
  | (key, v) :: rest =>
    (key, if isRefKey key then replaceRef f v else withRefs f v) :: withRefsEntries f rest

end

/-- The value of an entry with its references replaced. -/
def withRefsAt (f : Text → Text) (entry : Scalar × Value) : Value :=
  if isRefKey entry.1 then replaceRef f entry.2 else withRefs f entry.2

@[simp] theorem withRefsItems_eq_map (f : Text → Text) (items : List Value) :
    withRefsItems f items = items.map (withRefs f) := by
  induction items with
  | nil => rfl
  | cons item rest ih => rw [withRefsItems, ih, List.map_cons]

/-- References are replaced entry by entry. -/
theorem withRefsEntries_eq_map (f : Text → Text) (entries : Entries) :
    withRefsEntries f entries = entries.map fun entry => (entry.1, withRefsAt f entry) := by
  induction entries with
  | nil => rfl
  | cons entry rest ih =>
    rw [withRefsEntries, ih, List.map_cons]
    rfl

@[simp] theorem withRefs_id (v : Value) : withRefs id v = v := by
  induction v using parts_induction with
  | scalar s => rw [withRefs]
  | sequence items ih =>
    rw [withRefs, withRefsItems_eq_map, List.map_congr_left ih, List.map_id']
  | mapping label entries ih =>
    rw [withRefs, withRefsEntries_eq_map]
    congr 1
    conv_rhs => rw [← List.map_id entries]
    refine List.map_congr_left ?_
    intro entry hentry
    refine Prod.ext rfl ?_
    show withRefsAt id entry = entry.2
    rw [withRefsAt, ih entry hentry]
    split
    · unfold replaceRef
      split <;> simp_all
    · rfl
  | set members => rw [withRefs]
  | pair first second _ _ => rw [withRefs]

/-- Replacing references repeats no keys and members. -/
theorem Distinct.withRefs (f : Text → Text) {v : Value} (h : v.Distinct) :
    (withRefs f v).Distinct := by
  induction h with
  | scalar s =>
    rw [Value.withRefs]
    exact .scalar s
  | sequence _ ih =>
    rw [Value.withRefs, withRefsItems_eq_map]
    exact .sequence (List.forall_mem_map.2 ih)
  | @mapping label entries apart parts ih =>
    rw [Value.withRefs, withRefsEntries_eq_map]
    refine .mapping (List.pairwise_map.2 apart) (List.forall_mem_map.2 fun entry hentry => ?_)
    show (withRefsAt f entry).Distinct
    unfold withRefsAt replaceRef
    split
    · split
      · exact .scalar _
      · exact parts entry hentry
    · exact ih entry hentry
  | set apart =>
    rw [Value.withRefs]
    exact .set apart
  | pair left right _ _ =>
    rw [Value.withRefs]
    exact .pair left right

/-! ## Places of references -/

@[simp] theorem sitesOfItems_eq_flatMap (items : List Value) :
    sitesOfItems items = items.flatMap sites := by
  induction items with
  | nil => rfl
  | cons item rest ih => rw [sitesOfItems, ih, List.flatMap_cons]

/-- The references in some entries are those in their values, except under the key of a
reference. -/
theorem sitesOfEntries_eq_flatMap (entries : Entries) :
    sitesOfEntries entries
      = entries.flatMap fun entry => if isRefKey entry.1 then [] else sites entry.2 := by
  induction entries with
  | nil => rfl
  | cons entry rest ih => rw [sitesOfEntries, ih, List.flatMap_cons]

/-- The reference of a mapping that repeats no key is the text under the key of a reference. -/
theorem refOf?_eq_some_iff {entries : Entries} (h : KeysApart entries) (ref : Text) :
    refOf? entries = some ref ↔
      ∃ entry ∈ entries, isRefKey entry.1 = true ∧ entry.2 = text ref := by
  rw [refOf?, Option.bind_eq_some_iff]
  constructor
  · rintro ⟨v, hv, href⟩
    obtain ⟨entry, hentry, hkey, rfl⟩ := exists_entry_of_lookup hv
    exact ⟨entry, hentry, hkey, eq_text_of_text? href⟩
  · rintro ⟨entry, hentry, hkey, hvalue⟩
    refine ⟨entry.2, ?_, by rw [hvalue]; rfl⟩
    rw [Entries.get?, ← (isRefKey_iff _).1 hkey]
    exact h.lookup_eq hentry

/-! ## When replacements agree -/

/-- Two ways of reading references agree on the references in a value. -/
def AgreeOn (f g : Text → Text) (v : Value) : Prop :=
  ∀ site ∈ v.sites, f site.ref = g site.ref

@[simp] theorem agreeOn_sequence_iff (f g : Text → Text) (items : List Value) :
    AgreeOn f g (sequence items) ↔ ∀ v ∈ items, AgreeOn f g v := by
  unfold AgreeOn
  rw [sites, sitesOfItems_eq_flatMap]
  simp only [List.mem_flatMap, forall_exists_index, and_imp]
  exact ⟨fun h v hv site hsite => h site v hv hsite, fun h site v hv hsite => h v hv site hsite⟩

/-- Reading references agrees on an entry: on the reference that it is, or on those in its value. -/
def AgreeAt (f g : Text → Text) (entry : Scalar × Value) : Prop :=
  if isRefKey entry.1 then ∀ ref, entry.2 = text ref → f ref = g ref else AgreeOn f g entry.2

/-- Reading references agrees on a mapping if it agrees on its entries. -/
theorem agreeOn_mapping_iff (f g : Text → Text) (label : Option Nat) {entries : Entries}
    (h : KeysApart entries) :
    AgreeOn f g (mapping label entries) ↔ ∀ entry ∈ entries, AgreeAt f g entry := by
  unfold AgreeOn
  rw [sites, sitesOfEntries_eq_flatMap]
  simp only [List.mem_append, Option.mem_toList, Option.map_eq_some_iff,
    refOf?_eq_some_iff h, List.mem_flatMap]
  constructor
  · intro hall entry hentry
    unfold AgreeAt
    split
    · next hkey =>
      intro ref href
      exact hall ⟨label, ref⟩ (Or.inl ⟨ref, ⟨entry, hentry, hkey, href⟩, rfl⟩)
    · next hkey =>
      intro site hsite
      refine hall site (Or.inr ⟨entry, hentry, ?_⟩)
      rwa [if_neg hkey]
  · intro hall site hsite
    rcases hsite with ⟨ref, ⟨entry, hentry, hkey, href⟩, rfl⟩ | ⟨entry, hentry, hsite⟩
    · have hagree := hall entry hentry
      rw [AgreeAt, if_pos hkey] at hagree
      exact hagree ref href
    · have hagree := hall entry hentry
      by_cases hkey : isRefKey entry.1 = true
      · rw [if_pos hkey] at hsite
        simp at hsite
      · rw [if_neg hkey] at hsite
        rw [AgreeAt, if_neg hkey] at hagree
        exact hagree site hsite

/-- The same values under the key of a reference stay the same if the references in them do. -/
theorem same_replaceRef_iff {f g : Text → Text} {v w : Value} (h : same v w = true) :
    same (replaceRef f v) (replaceRef g w) = true ↔ ∀ ref, v = text ref → f ref = g ref := by
  by_cases hv : ∃ ref, v = text ref
  · obtain ⟨ref, rfl⟩ := hv
    cases w <;> simp only [same, Bool.false_eq_true] at h
    rw [Scalar.same_comm, Scalar.same_text_iff] at h
    subst h
    show same (text (f ref)) (text (g ref)) = true ↔ _
    rw [same, Scalar.same_text_iff]
    constructor
    · rintro heq other hother
      cases hother
      exact Scalar.text.inj heq
    · intro hall
      rw [hall ref rfl]
  · have hforeign : ∀ ref, v ≠ text ref := fun ref heq => hv ⟨ref, heq⟩
    have hforeign' : ∀ ref, w ≠ text ref := by
      rintro ref rfl
      cases v <;> simp only [same, Bool.false_eq_true] at h
      rw [Scalar.same_text_iff] at h
      exact hforeign ref (congrArg scalar h)
    rw [replaceRef_of_foreign f hforeign, replaceRef_of_foreign g hforeign']
    exact ⟨fun _ ref href => absurd href (hforeign ref), fun _ => h⟩

/-- Two replacements in values that are the same give the same value exactly when they agree on the
references in it. -/
theorem same_withRefs_iff {f g : Text → Text} {v w : Value} (hv : v.Distinct)
    (h : same v w = true) : same (withRefs f v) (withRefs g w) = true ↔ AgreeOn f g v := by
  induction hv generalizing w with
  | scalar s =>
    cases w <;> simp only [same, Bool.false_eq_true] at h
    simpa [withRefs, same, AgreeOn, sites] using h
  | @sequence items parts ih =>
    cases w <;> simp only [same, Bool.false_eq_true] at h
    rw [sameItems_iff] at h
    rw [withRefs, withRefs, same, sameItems_iff, withRefsItems_eq_map, withRefsItems_eq_map,
      List.forall₂_map_left_iff, List.forall₂_map_right_iff, agreeOn_sequence_iff]
    induction h with
    | nil => simp
    | cons hhead _ ihtail =>
      rw [List.forall₂_cons, List.forall_mem_cons, ih _ List.mem_cons_self hhead,
        ihtail (fun v hv => parts v (List.mem_cons_of_mem _ hv))
          fun v hv => ih v (List.mem_cons_of_mem _ hv)]
  | @mapping label entries apart _ ih =>
    cases w <;> simp only [same, Bool.false_eq_true] at h
    next others =>
    rw [Bool.and_eq_true, beq_iff_eq, sameEntries_iff] at h
    rw [withRefs, withRefs, same, Bool.and_eq_true, beq_iff_eq, sameEntries_iff,
      withRefsEntries_eq_map, withRefsEntries_eq_map, List.length_map, List.length_map,
      and_iff_right h.1, agreeOn_mapping_iff f g label apart, List.forall_mem_map]
    refine forall₂_congr fun entry hentry => ?_
    obtain ⟨value, hlookup, hsame⟩ := h.2 entry hentry
    obtain ⟨other, hfind, rfl⟩ := Option.map_eq_some_iff.1 hlookup
    -- The keys are the same, so both entries hold references or neither does.
    have hkey : isRefKey other.1 = isRefKey entry.1 :=
      isRefKey_congr (by simpa using List.find?_some hfind)
    rw [Entries.lookup_map, hfind]
    simp only [Option.map_some, Option.some.injEq, exists_eq_left']
    unfold withRefsAt AgreeAt
    rw [hkey]
    split
    · exact same_replaceRef_iff hsame
    · exact ih entry hentry hsame
  | set _ =>
    cases w <;> simp only [same, Bool.false_eq_true] at h
    simpa [withRefs, same, AgreeOn, sites] using h
  | pair _ _ _ _ =>
    cases w <;> simp only [same, Bool.false_eq_true] at h
    simpa [withRefs, same, AgreeOn, sites] using h

/-! ## Values without labels -/

/-- No mapping of a value carries a label: each stands at one place only. -/
def AliasFree (v : Value) : Prop :=
  Yaml.labels v = []

@[simp] theorem labelsAll_eq_flatMap (items : List Value) :
    Yaml.labelsAll items = items.flatMap Yaml.labels := by
  induction items with
  | nil => rfl
  | cons item rest ih => rw [Yaml.labelsAll, ih, List.flatMap_cons]

theorem labelsEntries_eq_flatMap (entries : Entries) :
    Yaml.labelsEntries entries = entries.flatMap fun entry => Yaml.labels entry.2 := by
  induction entries with
  | nil => rfl
  | cons entry rest ih => rw [Yaml.labelsEntries, ih, List.flatMap_cons]

@[simp] theorem aliasFree_sequence_iff (items : List Value) :
    AliasFree (sequence items) ↔ ∀ v ∈ items, AliasFree v := by
  rw [AliasFree, Yaml.labels, labelsAll_eq_flatMap, List.flatMap_eq_nil_iff]
  rfl

@[simp] theorem aliasFree_mapping_iff (label : Option Nat) (entries : Entries) :
    AliasFree (mapping label entries) ↔ label = none ∧ ∀ entry ∈ entries, AliasFree entry.2 := by
  rw [AliasFree, Yaml.labels, labelsEntries_eq_flatMap, List.append_eq_nil_iff,
    List.flatMap_eq_nil_iff, Option.toList_eq_nil_iff]
  rfl

@[simp] theorem aliasFree_pair_iff (first second : Value) :
    AliasFree (pair first second) ↔ AliasFree first ∧ AliasFree second := by
  rw [AliasFree, Yaml.labels, List.append_eq_nil_iff]
  rfl

@[simp] theorem redirectItems_eq_map (settled : Repeated) (redirect : Text → Text)
    (items : List Value) :
    redirectItems settled redirect items = items.map (redirectRefs settled redirect) := by
  induction items with
  | nil => rfl
  | cons item rest ih => rw [redirectItems, ih, List.map_cons]

/-- The value of an entry with its references redirected; `own` is the reference of the mapping
where that is given. -/
def redirectAt (settled : Repeated) (redirect : Text → Text) (own : Option Text)
    (entry : Scalar × Value) : Value :=
  if isRefKey entry.1 then
    match entry.2 with
    | scalar (.text ref) => text (own.getD (redirect ref))
    | v => redirectRefs settled id v
  else redirectRefs settled redirect entry.2

/-- Redirection goes entry by entry. -/
theorem redirectEntries_eq_map (settled : Repeated) (redirect : Text → Text)
    (own : Option Text) (entries : Entries) :
    redirectEntries settled redirect own entries
      = entries.map fun entry => (entry.1, redirectAt settled redirect own entry) := by
  induction entries with
  | nil => rfl
  | cons entry rest ih =>
    obtain ⟨key, v⟩ := entry
    rw [List.map_cons, ← ih]
    cases v with
    | scalar s => cases s <;> simp [redirectEntries, redirectAt]
    | _ => simp [redirectEntries, redirectAt]

section Redirection

variable {settled : Repeated} {redirect : Text → Text} {own : Option Text} {key : Scalar}

theorem redirectAt_of_text (hkey : isRefKey key = true) (ref : Text) :
    redirectAt settled redirect own (key, text ref) = text (own.getD (redirect ref)) := by
  rw [redirectAt, if_pos hkey]

/-- What stands under the key of a reference but is none is only walked through. -/
theorem redirectAt_of_foreign (hkey : isRefKey key = true) {v : Value} (h : ∀ s, v ≠ text s) :
    redirectAt settled redirect own (key, v) = redirectRefs settled id v := by
  rw [redirectAt, if_pos hkey]
  split
  · next ref hv => exact absurd hv (h ref)
  · rfl

theorem redirectAt_of_other (hkey : isRefKey key = false) (v : Value) :
    redirectAt settled redirect own (key, v) = redirectRefs settled redirect v := by
  rw [redirectAt, if_neg (by simp [hkey])]

/-- Redirection makes no text of what is none. -/
theorem text?_redirectRefs (settled : Repeated) (redirect : Text → Text) {v : Value}
    (h : ∀ s, v ≠ text s) : (redirectRefs settled redirect v).text? = none := by
  cases v with
  | scalar s =>
    rw [redirectRefs]
    cases s with
    | text s => exact absurd rfl (h s)
    | _ => rfl
  | _ =>
    rw [redirectRefs]
    rfl

/-- Under the key of a reference only texts are texts after redirection. -/
theorem text?_redirectAt (hkey : isRefKey key = true) (v : Value) :
    (redirectAt settled redirect own (key, v)).text?
      = v.text?.map fun ref => own.getD (redirect ref) := by
  cases htext : v.text? with
  | some ref =>
    rw [eq_text_of_text? htext, redirectAt_of_text hkey]
    rfl
  | none =>
    have hforeign : ∀ s, v ≠ text s := by
      rintro s rfl
      cases htext
    rw [redirectAt_of_foreign hkey hforeign, text?_redirectRefs settled id hforeign]
    rfl

/-- The reference of a mapping after redirection is the one before it, redirected on its own or with
the other copies of the mapping. -/
theorem refOf?_redirected (entries : Entries) :
    refOf? (entries.map fun entry => (entry.1, redirectAt settled redirect own entry))
      = (refOf? entries).map fun ref => own.getD (redirect ref) := by
  have hkey : isRefKey (.text Reference.refKey) = true := (isRefKey_iff _).2 rfl
  rw [refOf?, refOf?, Entries.get?_map fun _ => rfl, Option.bind_map, Option.map_bind]
  congr 1
  funext v
  exact text?_redirectAt hkey v

theorem get?_redirected {key : Text} (hkey : key ≠ Reference.refKey) (entries : Entries) :
    Entries.get? key (entries.map fun entry => (entry.1, redirectAt settled redirect own entry))
      = (Entries.get? key entries).map (redirectRefs settled redirect) :=
  Entries.get?_map (redirectAt_of_other (isRefKey_text_of_ne hkey)) entries

end Redirection

/-- Without labels redirection replaces each reference on its own. -/
theorem redirectRefs_eq_withRefs {settled : Repeated} (redirect : Text → Text) {v : Value}
    (h : AliasFree v) : redirectRefs settled redirect v = withRefs redirect v := by
  induction v using parts_induction generalizing redirect with
  | scalar s => rw [redirectRefs, withRefs]
  | sequence items ih =>
    rw [aliasFree_sequence_iff] at h
    rw [redirectRefs, withRefs, redirectItems_eq_map, withRefsItems_eq_map,
      List.map_congr_left fun v hv => ih v hv redirect (h v hv)]
  | mapping label entries ih =>
    rw [aliasFree_mapping_iff] at h
    obtain ⟨rfl, hparts⟩ := h
    rw [redirectRefs, withRefs]
    show mapping none (redirectEntries settled redirect none entries) = _
    rw [redirectEntries_eq_map, withRefsEntries_eq_map]
    congr 1
    refine List.map_congr_left ?_
    intro entry hentry
    refine Prod.ext rfl ?_
    -- What stands under a key for references but is none is walked through without a change.
    have hkeep : redirectRefs settled id entry.2 = entry.2 := by
      rw [ih entry hentry id (hparts entry hentry), withRefs_id]
    have hvalue := ih entry hentry redirect (hparts entry hentry)
    show redirectAt settled redirect none entry = withRefsAt redirect entry
    unfold redirectAt withRefsAt
    rw [hvalue]
    split
    · unfold replaceRef
      split
      · rfl
      · exact hkeep
    · rfl
  | set members => rw [redirectRefs, withRefs]
  | pair first second ihfirst ihsecond =>
    rw [aliasFree_pair_iff] at h
    rw [redirectRefs, withRefs, ihfirst id h.1, ihsecond id h.2, withRefs_id, withRefs_id]

@[simp] theorem unlabelledItems_eq_map (items : List Value) :
    unlabelledItems items = items.map unlabelled := by
  induction items with
  | nil => rfl
  | cons item rest ih => rw [unlabelledItems, ih, List.map_cons]

@[simp] theorem unlabelledEntries_eq_map (entries : Entries) :
    unlabelledEntries entries = entries.map fun entry => (entry.1, unlabelled entry.2) := by
  induction entries with
  | nil => rfl
  | cons entry rest ih =>
    rw [unlabelledEntries, ih, List.map_cons]

@[simp] theorem get?_unlabelledEntries (key : Text) (entries : Entries) :
    Entries.get? key (unlabelledEntries entries) = (Entries.get? key entries).map unlabelled := by
  rw [unlabelledEntries_eq_map]
  exact Entries.get?_map (fun _ => rfl) entries

@[simp] theorem text?_unlabelled (v : Value) : v.unlabelled.text? = v.text? := by
  cases v <;> rfl

@[simp] theorem refOf?_unlabelledEntries (entries : Entries) :
    refOf? (unlabelledEntries entries) = refOf? entries := by
  rw [refOf?, refOf?, get?_unlabelledEntries]
  cases Entries.get? Reference.refKey entries with
  | none => rfl
  | some v => exact text?_unlabelled v

@[simp] theorem sites_unlabelled (v : Value) :
    v.unlabelled.sites = v.sites.map fun site => ⟨none, site.ref⟩ := by
  induction v using parts_induction with
  | scalar s => rfl
  | sequence items ih =>
    rw [unlabelled, sites, sites, sitesOfItems_eq_flatMap, sitesOfItems_eq_flatMap,
      unlabelledItems_eq_map, List.flatMap_map, List.map_flatMap]
    exact List.flatMap_congr ih
  | mapping label entries ih =>
    rw [unlabelled, sites, sites, refOf?_unlabelledEntries, List.map_append]
    congr 1
    · cases refOf? entries <;> rfl
    · rw [sitesOfEntries_eq_flatMap, sitesOfEntries_eq_flatMap, unlabelledEntries_eq_map,
        List.flatMap_map, List.map_flatMap]
      refine List.flatMap_congr fun entry hentry => ?_
      simp only
      split
      · rfl
      · exact ih entry hentry
  | set members => rfl
  | pair first second _ _ => rfl

@[simp] theorem isTruthy_unlabelled (v : Value) : v.unlabelled.isTruthy = v.isTruthy := by
  cases v with
  | sequence items => cases items <;> rfl
  | mapping label others => cases others <;> rfl
  | _ => rfl

@[simp] theorem same_unlabelled (v w : Value) : same v (unlabelled w) = same v w := by
  induction v using parts_induction generalizing w with
  | scalar s => cases w <;> simp [unlabelled, same]
  | sequence items ih =>
    cases w <;> simp only [unlabelled, same]
    next others =>
    rw [Bool.eq_iff_iff, sameItems_iff, sameItems_iff, unlabelledItems_eq_map,
      List.forall₂_map_right_iff]
    exact forall₂_congr_of_mem fun v hv other => by rw [ih v hv]
  | mapping label entries ih =>
    cases w <;> simp only [unlabelled, same]
    next others =>
    rw [unlabelledEntries_eq_map, List.length_map, Bool.eq_iff_iff, Bool.and_eq_true,
      Bool.and_eq_true, sameEntries_iff, sameEntries_iff]
    refine and_congr_right fun _ => forall₂_congr fun entry hentry => ?_
    rw [Entries.lookup_map, Entries.lookup]
    cases others.find? fun other => other.1.same entry.1 with
    | none => simp
    | some other => simp [ih entry hentry other.2]
  | set _ => cases w <;> simp [unlabelled, same]
  | pair first second ihfirst ihsecond =>
    cases w <;> simp [unlabelled, same, ihfirst, ihsecond]

/-! ## Relocation -/

theorem relocated_eq_withRefs (root base : Path) {v : Value} (h : AliasFree v) :
    relocated root base v = withRefs (redirectRef root base) v :=
  redirectRefs_eq_withRefs _ h

end Value

end SchemaCodecs
