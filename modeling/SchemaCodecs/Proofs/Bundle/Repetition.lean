/-
# References of repeated mappings

A mapping that stands at several places is met several times, and every time its reference is
redirected once more.  From the second redirection on it only holds a name, which gets shorter until
it stays; so a reference leads to no more targets than the allowance for its document has taken into
account.

* `exists_settled` : how soon the redirections of a reference come to rest;
* `exists_iterate_of_mem_refsMet` : the references that are met are redirected ones;
* `mem_targetsAlong` : the targets that a reference leads to, however often it is redirected.
-/
import SchemaCodecs.Bundle.Gather
import SchemaCodecs.Proofs.Bundle.Course
import SchemaCodecs.Proofs.Reference.Decoding
import Mathlib.Data.List.Basic
import Mathlib.Logic.Function.Iterate

namespace SchemaCodecs

open Text

/-! ## Lengths of names -/

/-- A part between separators is not longer than the text. -/
theorem length_le_of_mem_segments {separator : Point} {part cs : List Point}
    (h : part ∈ segments separator cs) : part.length ≤ cs.length := by
  induction cs generalizing part with
  | nil =>
    obtain rfl := List.mem_singleton.1 h
    exact Nat.le_refl _
  | cons c rest ih =>
    rw [segments] at h
    rw [List.length_cons]
    split at h
    · rcases List.mem_cons.1 h with rfl | h
      · exact Nat.zero_le _
      · exact Nat.le_succ_of_le (ih h)
    · split at h
      · obtain rfl := List.mem_singleton.1 h
        rw [List.length_singleton]
        omega
      · next first others hrest =>
        rcases List.mem_cons.1 h with rfl | h
        · have hmem : first ∈ segments separator rest := by
            rw [hrest]
            exact List.mem_cons_self
          have hfirst := ih hmem
          rw [List.length_cons]
          omega
        · exact Nat.le_succ_of_le (ih (by rw [hrest]; exact List.mem_cons_of_mem _ h))

/-- A text is not longer than a list of texts that it stands in. -/
theorem length_le_joinWith {s separator : Text} {items : List Text} (h : s ∈ items) :
    s.length ≤ (joinWith separator items).length := by
  induction items with
  | nil => cases h
  | cons first rest ih =>
    cases rest with
    | nil =>
      obtain rfl := List.mem_singleton.1 h
      exact Nat.le_refl _
    | cons second rest =>
      rw [joinWith, Text.length_append, Text.length_append]
      · rcases List.mem_cons.1 h with rfl | h
        · omega
        · have hrest := ih h
          omega
      · simp

namespace Path

theorem length_le_text {path : Path} {name : Text} (h : name ∈ path.names) :
    name.length ≤ path.text.length := by
  rw [text, Text.length_append]
  exact Nat.le_add_left_of_le (length_le_joinWith h)

theorem length_le_of_mem_namesOf {name : Text} {cs : List Point} (h : name ∈ namesOf cs) :
    name.length ≤ cs.length := by
  obtain ⟨part, hpart, rfl⟩ := List.mem_map.1 (List.mem_of_mem_filter h)
  rw [Text.length_ofList]
  exact length_le_of_mem_segments hpart

/-- A name on the path that a text means stands in the directory or in the text. -/
theorem mem_names_join {directory : Path} {text name : Text}
    (h : name ∈ (directory.join text).names) :
    name ∈ directory.names ∨ name.length ≤ text.length := by
  have hlength : ∀ {cs rest : List Point}, cs.length ≤ rest.length → name ∈ namesOf cs →
      name.length ≤ rest.length := fun hle hname => (length_le_of_mem_namesOf hname).trans hle
  rw [← Text.length_toList]
  unfold join at h
  split at h
  · next heq => exact Or.inr (hlength (by rw [heq]; simp only [List.length_cons]; omega) h)
  · next heq => exact Or.inr (hlength (by rw [heq]; simp only [List.length_cons]; omega) h)
  · next heq => exact Or.inr (hlength (by rw [heq]; simp only [List.length_cons]; omega) h)
  · exact (List.mem_append.1 h).imp_right (hlength (Nat.le_refl _))

/-- The plain form of a path has no other names. -/
theorem names_plain_subset (path : Path) : path.plain.names ⊆ path.names := by
  have hfold : ∀ (names : List Text) (here : Path),
      (names.foldl step here).names ⊆ here.names ++ names := by
    intro names
    induction names with
    | nil => simp
    | cons name rest ih =>
      intro here other hother
      have hstep : (here.step name).names ⊆ here.names ++ [name] := by
        unfold step
        split
        · exact List.subset_append_of_subset_left _ (List.dropLast_subset _)
        · exact List.Subset.refl _
      rcases List.mem_append.1 (ih _ hother) with hfirst | hrest
      · rw [← List.singleton_append, ← List.append_assoc]
        exact List.mem_append_left _ (hstep hfirst)
      · exact List.mem_append_right _ (List.mem_cons_of_mem _ hrest)
  exact hfold path.names root

/-- The last name of a path up to its dot is not longer than any bound on its names. -/
theorem length_stem_le {path : Path} {bound : Nat} (h : ∀ name ∈ path.names, name.length ≤ bound) :
    path.stem.length ≤ bound := by
  have hcut : ∀ cs : List Point, (cutFirst '.' cs).1.length ≤ cs.length := by
    intro cs
    induction cs with
    | nil => exact Nat.le_refl _
    | cons c rest ih =>
      rw [cutFirst]
      split
      · exact Nat.zero_le _
      · rw [List.length_cons, List.length_cons]
        exact Nat.succ_le_succ ih
  rw [stem, Text.length_ofList]
  refine (hcut _).trans ?_
  rw [Text.length_toList, name]
  cases hlast : path.names.getLast? with
  | none => exact Nat.zero_le _
  | some name => exact h name (List.mem_of_getLast? hlast)

end Path

/-- The name of a file that a reference leads to is not longer than the reference and the path of
the file it stands in. -/
theorem length_stem_fileOf_le (base : Path) (path : Text) :
    (fileOf base path).stem.length ≤ path.length + base.text.length := by
  refine Path.length_stem_le ?_
  intro name hname
  have hname := Path.names_plain_subset _ hname
  split at hname
  · exact Nat.le_add_left_of_le (Path.length_le_text hname)
  · rcases Path.mem_names_join hname with hparent | hlength
    · exact Nat.le_add_left_of_le (Path.length_le_text (List.dropLast_subset _ hparent))
    · exact Nat.le_add_right_of_le hlength

/-! ## Names of redirected references -/

theorem isPrefix_dropTrailing (separator : Point) (cs : List Point) :
    dropTrailing separator cs <+: cs := by
  rw [dropTrailing, ← List.reverse_suffix, List.reverse_reverse]
  exact List.dropWhile_suffix _

/-- The name of a part of a file is not longer than its pointer and the name of the file. -/
theorem length_name_le (target : Target) :
    target.name.length ≤ max target.pointer.length target.file.stem.length := by
  rw [Target.name]
  split
  · exact Nat.le_max_right _ _
  · next characters _ =>
    refine le_trans ?_ (Nat.le_max_left _ _)
    rw [Text.length_ofList, ← Text.length_toList]
    calc (Reference.decodeToken (lastSegment '/' (dropTrailing '/' target.pointer.toList))).length
        ≤ (lastSegment '/' (dropTrailing '/' target.pointer.toList)).length :=
          Reference.length_decodeToken_le _
      _ ≤ (dropTrailing '/' target.pointer.toList).length := (lastSegment_suffix _ _).length_le
      _ ≤ target.pointer.toList.length := (isPrefix_dropTrailing _ _).length_le

/-- The name of what a reference to a component schema means inside another file. -/
def nextName (name : Text) : Text :=
  Target.name ⟨default, "/components/schemas/" ++ name⟩

@[simp] theorem toList_schemaPointer (name : Text) : ("/components/schemas/" ++ name).toList
    = .char '/' :: (("components/schemas" : Text).toList ++ .char '/' :: name.toList) := by
  rw [Text.toList_append]
  rfl

theorem toList_nextName (name : Text) :
    (nextName name).toList = Reference.decodeToken (lastSegment '/'
      (dropTrailing '/' (("/components/schemas" : Text).toList ++ .char '/' :: name.toList))) := by
  rw [nextName, Target.name]
  simp only [toList_schemaPointer, Text.toList_ofList]
  rfl

theorem name_schemas (file : Path) (name : Text) :
    Target.name ⟨file, "/components/schemas/" ++ name⟩ = nextName name := by
  rw [nextName, Target.name, Target.name]
  simp only [toList_schemaPointer]

/-- A name of slashes gives way to the name of the table. -/
theorem nextName_of_dropTrailing_eq_nil {name : Text}
    (h : dropTrailing '/' name.toList = []) : nextName name = "schemas" := by
  have hempty : name.toList.reverse.dropWhile (· == .char '/') = [] := List.reverse_eq_nil_iff.1 h
  have hdrop : dropTrailing '/' (("/components/schemas" : Text).toList ++ .char '/' :: name.toList)
      = ("/components/schemas" : Text).toList := by
    rw [dropTrailing, List.reverse_append, List.reverse_cons, List.append_assoc,
      List.dropWhile_append, hempty]
    rfl
  have hlast : Reference.decodeToken (lastSegment '/' ("/components/schemas" : Text).toList)
      = ("schemas" : Text).toList := by decide
  rw [← Text.toList_inj, toList_nextName, hdrop, hlast]

/-- Any other name is decoded from its last part. -/
theorem toList_nextName_of_ne_nil {name : Text} (h : dropTrailing '/' name.toList ≠ []) :
    (nextName name).toList
      = Reference.decodeToken (lastSegment '/' (dropTrailing '/' name.toList)) := by
  have hne : name.toList.reverse.dropWhile (· == .char '/') ≠ [] := fun heq =>
    h (List.reverse_eq_nil_iff.2 heq)
  have hdrop : dropTrailing '/' (("/components/schemas" : Text).toList ++ .char '/' :: name.toList)
      = ("/components/schemas" : Text).toList ++ .char '/' :: dropTrailing '/' name.toList := by
    rw [dropTrailing, List.reverse_append, List.reverse_cons, List.append_assoc,
      List.dropWhile_append, if_neg (by simpa using hne), List.reverse_append, List.reverse_append,
      List.reverse_reverse, List.append_assoc]
    rfl
  rw [toList_nextName, hdrop, lastSegment_append]

/-- A name that is not made of slashes stays or gets shorter. -/
theorem nextName_eq_or_lt {name : Text} (h : dropTrailing '/' name.toList ≠ []) :
    nextName name = name ∨ (nextName name).length < name.length := by
  have hprefix := isPrefix_dropTrailing '/' name.toList
  have hsuffix := lastSegment_suffix '/' (dropTrailing '/' name.toList)
  have hdecoded := Reference.length_decodeToken_le (lastSegment '/' (dropTrailing '/' name.toList))
  have hnext := toList_nextName_of_ne_nil h
  rw [← Text.length_toList, ← Text.length_toList]
  rcases Nat.lt_or_ge (nextName name).toList.length name.toList.length with hlt | hge
  · exact Or.inr hlt
  · -- No step has made the name shorter, so no step has changed it.
    rw [hnext] at hge
    have hle := hprefix.length_le
    have hle' := hsuffix.length_le
    have hdrop : dropTrailing '/' name.toList = name.toList := hprefix.eq_of_length (by omega)
    rw [hdrop] at hsuffix hdecoded hge hnext hle'
    have hlast : lastSegment '/' name.toList = name.toList := hsuffix.eq_of_length (by omega)
    rw [hlast] at hge hnext
    refine Or.inl (Text.toList_inj.1 ?_)
    rw [hnext, Reference.decodeToken_eq_self_of_length_le hge]

/-- The names of a reference that is redirected again and again come to rest. -/
theorem exists_settled_name (name : Text) :
    ∃ k ≤ name.length + 1, nextName (nextName^[k] name) = nextName^[k] name := by
  induction hlength : name.length using Nat.strongRecOn generalizing name with
  | ind length ih =>
    -- Each step makes the name shorter, leaves it, or turns slashes into the name of the table.
    by_cases hslashes : dropTrailing '/' name.toList = []
    · refine ⟨1, by omega, ?_⟩
      rw [Function.iterate_one, nextName_of_dropTrailing_eq_nil hslashes]
      decide
    · rcases nextName_eq_or_lt hslashes with hsame | hlt
      · exact ⟨0, by omega, hsame⟩
      · obtain ⟨k, hk, hsettled⟩ := ih _ (hlength ▸ hlt) (nextName name) rfl
        refine ⟨k + 1, by omega, ?_⟩
        rw [Function.iterate_succ_apply]
        exact hsettled

/-! ## References that come to rest -/

section Settling

variable {root base : Path}

/-- A reference that stays in its file means a part of that file. -/
theorem meaning_local (plain : base.IsPlain) (other : base ≠ root) (pointer : Text) :
    meaning root base ("#" ++ pointer) = .ok (.external ⟨base, pointer⟩) := by
  have hlist : ("#" ++ pointer).toList = .char '#' :: pointer.toList := by
    rw [Text.toList_append]
    rfl
  have hsplit : Reference.split ("#" ++ pointer) = (("" : Text), pointer) := by
    rw [Reference.split, hlist, cutFirst, if_pos (by decide)]
    show (Text.ofList [], Text.ofList pointer.toList) = _
    rw [Text.ofList_toList]
    rfl
  have hfile : fileOf base "" = base := by
    rw [fileOf, if_pos rfl, Path.plain_of_isPlain plain]
  have hbase : (base == root) = false := beq_eq_false_iff_ne.2 other
  have hmark : occursIn remoteMark ("" : Text).toList = false := by decide
  simp only [meaning, hsplit, hbase, Bool.and_false, hmark, hfile, if_neg other,
    Bool.false_eq_true, if_false]
  rfl

@[simp] theorem isLocal_append (pointer : Text) : Reference.isLocal ("#" ++ pointer) = true := by
  rw [Reference.isLocal, Text.toList_append]
  rfl

theorem toSchema_eq_local (name : Text) :
    Reference.toSchema name = "#" ++ ("/components/schemas/" ++ name) := by
  have hparts : Reference.schemasPath ++ "/" = "#" ++ "/components/schemas/" := by decide
  rw [Reference.toSchema, hparts, Text.append_assoc]

/-- In another file a reference to a component schema is redirected to the next name. -/
theorem semiconj_toSchema (plain : base.IsPlain) (other : base ≠ root) :
    Function.Semiconj Reference.toSchema nextName (redirectRef root base) := by
  intro name
  rw [redirectRef, toSchema_eq_local name, meaning_local plain other]
  simp only [name_schemas]

/-- A reference to a component schema comes to rest. -/
theorem exists_settled_toSchema (plain : base.IsPlain) (other : base ≠ root) (name : Text) :
    ∃ k ≤ name.length + 1, redirectRef root base ((redirectRef root base)^[k]
      (Reference.toSchema name)) = (redirectRef root base)^[k] (Reference.toSchema name) := by
  have hnames := semiconj_toSchema plain other
  obtain ⟨k, hk, hsettled⟩ := exists_settled_name name
  refine ⟨k, hk, ?_⟩
  rw [← (hnames.iterate_right k) name, ← hnames, hsettled]

/-- In the root document a reference comes to rest when it has been redirected once. -/
theorem redirectRef_redirectRef_root (ref : Text) :
    redirectRef root root (redirectRef root root ref) = redirectRef root root ref := by
  have hlocal : ∀ pointer : Text, redirectRef root root ("#" ++ pointer) = "#" ++ pointer := by
    intro pointer
    rw [redirectRef, meaning, if_pos (by rw [isLocal_append, beq_self_eq_true]; rfl)]
  cases hmeaning : meaning root root ref with
  | error fault =>
    have hself : redirectRef root root ref = ref := by rw [redirectRef, hmeaning]
    rw [hself, hself]
  | ok meant =>
    cases meant with
    | itself =>
      have hself : redirectRef root root ref = ref := by rw [redirectRef, hmeaning]
      rw [hself, hself]
    | inRoot pointer =>
      have hpart : redirectRef root root ref = "#" ++ pointer := by rw [redirectRef, hmeaning]
      rw [hpart, hlocal]
    | external target =>
      have hschema : redirectRef root root ref = Reference.toSchema target.name := by
        rw [redirectRef, hmeaning]
      rw [hschema, toSchema_eq_local, hlocal]

/-- The two parts of a reference are not longer than the reference. -/
theorem length_split_le (ref : Text) :
    (Reference.split ref).1.length ≤ ref.length ∧ (Reference.split ref).2.length ≤ ref.length := by
  have hcut : ∀ cs : List Point, (cutFirst '#' cs).1.length ≤ cs.length ∧
      ((cutFirst '#' cs).2.getD []).length ≤ cs.length := by
    intro cs
    induction cs with
    | nil => exact ⟨Nat.le_refl _, Nat.le_refl _⟩
    | cons c rest ih =>
      rw [cutFirst]
      split
      · exact ⟨Nat.zero_le _, Nat.le_succ _⟩
      · exact ⟨Nat.succ_le_succ ih.1, Nat.le_succ_of_le ih.2⟩
  have hparts := hcut ref.toList
  rw [Reference.split, Text.length_ofList, Text.length_ofList, ← Text.length_toList]
  exact hparts

/-- What a reference means is not longer than the reference and the path of its file. -/
theorem length_of_meaning {ref : Text} {meant : Meaning} (h : meaning root base ref = .ok meant) :
    (∀ pointer, meant = .inRoot pointer → pointer.length ≤ ref.length) ∧
      ∀ target, meant = .external target → target.name.length ≤ ref.length + base.text.length := by
  obtain ⟨hpath, hpointer⟩ := length_split_le ref
  simp only [meaning] at h
  split at h
  · cases h
    simp
  split at h
  · cases h
  split at h
  · cases h
  split at h
  · cases h
    simp [hpointer]
  · cases h
    refine ⟨by simp, ?_⟩
    rintro target ⟨⟩
    have hname := length_name_le ⟨fileOf base (Reference.split ref).1, (Reference.split ref).2⟩
    have hstem := length_stem_fileOf_le base (Reference.split ref).1
    simp only at hname
    omega

/-- **References come to rest.**  A reference in the root document or in another file, redirected
again and again, stays as it is before the allowance for it is used up. -/
theorem exists_settled (h : base ≠ root → base.IsPlain) (ref : Text) :
    ∃ k < ref.length + base.text.length + 4, redirectRef root base
      ((redirectRef root base)^[k] ref) = (redirectRef root base)^[k] ref := by
  by_cases hbase : base = root
  · subst hbase
    refine ⟨1, by omega, ?_⟩
    rw [Function.iterate_one, redirectRef_redirectRef_root]
  have plain := h hbase
  -- A reference that is redirected to a component schema goes through names from there on.
  have hschema : ∀ (steps : Nat) (name : Text),
      (redirectRef root base)^[steps] ref = Reference.toSchema name →
      steps + name.length + 1 < ref.length + base.text.length + 4 →
      ∃ k < ref.length + base.text.length + 4, redirectRef root base
        ((redirectRef root base)^[k] ref) = (redirectRef root base)^[k] ref := by
    intro steps name hsteps hlength
    obtain ⟨k, hk, hsettled⟩ := exists_settled_toSchema plain hbase name
    refine ⟨k + steps, by omega, ?_⟩
    rw [Function.iterate_add_apply, hsteps]
    exact hsettled
  cases hmeaning : meaning root base ref with
  | error fault => exact ⟨0, by omega, by rw [Function.iterate_zero, id, redirectRef, hmeaning]⟩
  | ok meant =>
    obtain ⟨hpointer, hname⟩ := length_of_meaning hmeaning
    cases meant with
    | itself => exact ⟨0, by omega, by rw [Function.iterate_zero, id, redirectRef, hmeaning]⟩
    | inRoot pointer =>
      -- The first step gives a part of the root document, which the second one reads in this file.
      have hstem : base.stem.length ≤ base.text.length :=
        Path.length_stem_le fun name => Path.length_le_text
      have hpart := length_name_le ⟨base, pointer⟩
      have hlength := hpointer pointer rfl
      refine hschema 2 (Target.name ⟨base, pointer⟩) ?_ (by simp only at hpart; omega)
      have hfirst : redirectRef root base ref = "#" ++ pointer := by rw [redirectRef, hmeaning]
      rw [Function.iterate_succ_apply, Function.iterate_one, hfirst, redirectRef,
        meaning_local plain hbase]
    | external target =>
      have hlength := hname target rfl
      refine hschema 1 target.name ?_ (by omega)
      rw [Function.iterate_one, redirectRef, hmeaning]

end Settling

/-! ## References that are met -/

/-- A reference that is met is one of the sites, redirected some number of times. -/
theorem exists_iterate_of_mem_met {redirect : Text → Text} {sites : List Site}
    {repeated : Repeated} {refs : List Text} (hsites : ∀ site ∈ sites, site.ref ∈ refs)
    (hrepeated : ∀ entry ∈ repeated, ∃ ref ∈ refs, ∃ k, entry.2 = redirect^[k] ref) {met : Text}
    (h : met ∈ Site.met redirect repeated sites) : ∃ ref ∈ refs, ∃ k, met = redirect^[k] ref := by
  induction sites generalizing repeated with
  | nil => cases h
  | cons site rest ih =>
    obtain ⟨hsite, hrest⟩ := List.forall_mem_cons.1 hsites
    -- A site is read as it stands, or as the first copy of its mapping has been left.
    have hcurrent : ∃ ref ∈ refs, ∃ k, site.current repeated = redirect^[k] ref := by
      rw [Site.current]
      cases hlookup : site.label.bind fun label => repeated.lookup label with
      | none => exact ⟨site.ref, hsite, 0, rfl⟩
      | some ref =>
        obtain ⟨label, -, hlabel⟩ := Option.bind_eq_some_iff.1 hlookup
        obtain ⟨front, back, rfl, -⟩ := List.lookup_eq_some_iff.1 hlabel
        exact hrepeated (label, ref) (List.mem_append_right _ List.mem_cons_self)
    rw [Site.met] at h
    rcases List.mem_cons.1 h with rfl | h
    · exact hcurrent
    · refine ih hrest ?_ h
      rw [Site.afterwards]
      split
      · exact hrepeated
      · refine List.forall_mem_cons.2 ⟨?_, hrepeated⟩
        obtain ⟨ref, href, k, hk⟩ := hcurrent
        exact ⟨ref, href, k + 1, by rw [hk, Function.iterate_succ_apply']⟩

/-- A reference that is met in a value stands in it, or is one that does after some
redirections. -/
theorem exists_iterate_of_mem_refsMet {root base : Path} {v : Value} {ref : Text}
    (h : ref ∈ v.refsMet root base) :
    ∃ site ∈ v.sites, ∃ k, ref = (redirectRef root base)^[k] site.ref := by
  have hsites : ∀ site ∈ v.sitesMet base, site.ref ∈ v.sites.map Site.ref :=
    fun site hsite => List.mem_map_of_mem (v.sitesMet_subset base hsite)
  obtain ⟨own, hown, k, hk⟩ := exists_iterate_of_mem_met hsites (by simp) h
  obtain ⟨site, hsite, rfl⟩ := List.mem_map.1 hown
  exact ⟨site, hsite, k, hk⟩

/-! ## Targets -/

/-- The target of a reference that leads out of the root document. -/
def externalTarget? (root base : Path) (ref : Text) : Option Target :=
  match meaning root base ref with
  | .ok (.external target) => some target
  | _ => none

/-- A reference has an external target when it means one. -/
theorem externalTarget?_eq_some_iff (root base : Path) (ref : Text) (target : Target) :
    externalTarget? root base ref = some target ↔
      meaning root base ref = .ok (.external target) := by
  unfold externalTarget?
  split
  · next means => simp [means]
  · next hne =>
    constructor
    · intro h
      cases h
    · intro means
      exact absurd means (hne target)

/-- The targets of a reference while it is redirected again and again, as many times as the allowance
for it takes into account. -/
def targetsAlong (root base : Path) (ref : Text) : List Target :=
  (List.range (ref.length + base.text.length + 4)).filterMap fun k =>
    externalTarget? root base ((redirectRef root base)^[k] ref)

theorem length_targetsAlong_le (root base : Path) (ref : Text) :
    (targetsAlong root base ref).length ≤ ref.length + base.text.length + 4 := by
  refine (List.length_filterMap_le _ _).trans ?_
  rw [List.length_range]

/-- However often a reference is redirected, its target is one of those. -/
theorem mem_targetsAlong {root base : Path} (h : base ≠ root → base.IsPlain) {ref : Text}
    {k : Nat} {target : Target}
    (means : meaning root base ((redirectRef root base)^[k] ref) = .ok (.external target)) :
    target ∈ targetsAlong root base ref := by
  obtain ⟨settled, hlt, hfixed⟩ := exists_settled h ref
  have hiterate : (redirectRef root base)^[min k settled] ref = (redirectRef root base)^[k] ref := by
    rcases Nat.le_total k settled with hle | hle
    · rw [Nat.min_eq_left hle]
    · rw [Nat.min_eq_right hle, ← Nat.sub_add_cancel hle, Function.iterate_add_apply,
        Function.iterate_fixed hfixed]
  refine List.mem_filterMap.2 ⟨min k settled, List.mem_range.2 (by omega), ?_⟩
  rw [hiterate, externalTarget?_eq_some_iff]
  exact means

end SchemaCodecs
