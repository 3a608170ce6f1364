/-
# Copies in place of repeated mappings

A document in which repeated mappings are written out holds the same values without labels.  Taking
labels away does not matter for what stands where, for what is the same, and for replacing
references.  It matters where references are met: the reference of a repeated mapping is redirected
every time it is met, and with it that of all copies of the mapping.

* `refsMet_unlabelled`, `resolveInside_unlabelled`, `equals_unlabelled` : what labels do not change;
* `Settles` : the redirections of each reference come to rest at once;
* `unlabelled_relocated` : then labels do not matter for relocation either.
-/
import SchemaCodecs.Proofs.Bundle.Gathering
import SchemaCodecs.Proofs.Yaml.Sharing

namespace SchemaCodecs

/-! ## References and parts -/

namespace Value

/-- References of mappings without labels are met as they stand. -/
theorem met_of_unlabelled (redirect : Text → Text) (repeated : Repeated) (sites : List Site) :
    Site.met redirect repeated (sites.map fun site => ⟨none, site.ref⟩) = sites.map Site.ref := by
  induction sites with
  | nil => rfl
  | cons site rest ih =>
    rw [List.map_cons, List.map_cons, Site.met, ← ih]
    rfl

@[simp] theorem isFinite_unlabelled (v : Value) : v.unlabelled.isFinite = v.isFinite := by
  rw [Bool.eq_iff_iff]
  induction v using parts_induction with
  | scalar s => rw [unlabelled]
  | sequence items ih =>
    simp only [unlabelled, unlabelledItems_eq_map, isFinite_sequence_iff, List.forall_mem_map]
    exact forall₂_congr ih
  | mapping label entries ih =>
    simp only [unlabelled, unlabelledEntries_eq_map, isFinite_mapping_iff, List.forall_mem_map]
    exact forall₂_congr ih
  | set members => rw [unlabelled]
  | pair first second ihfirst ihsecond =>
    rw [unlabelled, isFinite_pair_iff, isFinite_pair_iff, ihfirst, ihsecond]

theorem refsMet_unlabelled (root base : Path) {v : Value} (finite : v.isFinite = true) :
    v.unlabelled.refsMet root base = v.sites.map Site.ref := by
  have hfinite : v.unlabelled.isFinite = true := v.isFinite_unlabelled.trans finite
  rw [refsMet, (ends_of_isFinite hfinite).sitesMet_eq, sites_unlabelled,
    met_of_unlabelled]

@[simp] theorem select?_unlabelled (token : List Point) (v : Value) :
    Reference.select? token v.unlabelled = (Reference.select? token v).map unlabelled := by
  cases v with
  | sequence items =>
    rw [unlabelled, Reference.select?, Reference.select?]
    cases Number.integerOfText? token with
    | none => rfl
    | some index =>
      simp only [Option.bind_some, Reference.itemAt?, unlabelledItems_eq_map, List.length_map,
        List.getElem?_map]
      split
      · rfl
      · split <;> rfl
  | mapping label entries => exact get?_unlabelledEntries _ _
  | _ => rfl

/-- A pointer selects the same part without labels. -/
theorem resolveInside_unlabelled {document : Value} (finite : document.isFinite = true)
    (pointer ref : Text) :
    Reference.resolveInside document.unlabelled pointer ref
      = (Reference.resolveInside document pointer ref).map unlabelled := by
  have hselect : ∀ (tokens : List (List Point)) (v : Value),
      Reference.selectAll? tokens v.unlabelled = (Reference.selectAll? tokens v).map unlabelled := by
    intro tokens
    unfold Reference.selectAll?
    induction tokens with
    | nil =>
      intro v
      rfl
    | cons token rest ih =>
      intro v
      rw [List.foldlM_cons, List.foldlM_cons, select?_unlabelled]
      cases Reference.select? token v with
      | none => rfl
      | some part => exact ih part
  have hfinite : document.unlabelled.isFinite = true := document.isFinite_unlabelled.trans finite
  rw [resolveInside_of_isFinite finite, resolveInside_of_isFinite hfinite]
  unfold Reference.resolvePointer Reference.alongPointer
  split
  · rfl
  · dsimp only
    rw [hselect]
    cases Reference.selectAll? _ document <;> rfl
  · rfl

/-! ## Sameness -/

@[simp] theorem unlabelled_same (v w : Value) : same (unlabelled v) w = same v w := by
  induction v using parts_induction generalizing w with
  | scalar s => rfl
  | sequence items ih =>
    cases w <;> simp only [unlabelled, same]
    next others =>
    rw [Bool.eq_iff_iff, sameItems_iff, sameItems_iff, unlabelledItems_eq_map,
      List.forall₂_map_left_iff]
    exact forall₂_congr_of_mem fun v hv other => by rw [ih v hv]
  | mapping label entries ih =>
    cases w <;> simp only [unlabelled, same]
    next others =>
    rw [unlabelledEntries_eq_map, List.length_map, Bool.eq_iff_iff, Bool.and_eq_true,
      Bool.and_eq_true, sameEntries_iff, sameEntries_iff, List.forall_mem_map]
    refine and_congr_right fun _ => forall₂_congr fun entry hentry => ?_
    simp only [ih entry hentry]
  | set members => cases w <;> rfl
  | pair first second ihfirst ihsecond =>
    cases w <;> simp [unlabelled, same, ihfirst, ihsecond]

@[simp] theorem equals_unlabelled (v w : Value) : v.unlabelled.equals w.unlabelled = v.equals w := by
  have hnan : v.unlabelled.isNaN = v.isNaN := by cases v <;> rfl
  rw [equals, equals, same_unlabelled, unlabelled_same, hnan]

/-! ## Values without labels -/

@[simp] theorem aliasFree_unlabelled (v : Value) : v.unlabelled.AliasFree := by
  induction v using parts_induction with
  | scalar s => rfl
  | sequence items ih =>
    rw [unlabelled, unlabelledItems_eq_map, aliasFree_sequence_iff]
    exact List.forall_mem_map.2 ih
  | mapping label entries ih =>
    rw [unlabelled, unlabelledEntries_eq_map, aliasFree_mapping_iff]
    exact ⟨rfl, List.forall_mem_map.2 ih⟩
  | set members => rfl
  | pair first second ihfirst ihsecond =>
    rw [unlabelled, aliasFree_pair_iff]
    exact ⟨ihfirst, ihsecond⟩

/-- A value that has no labels stays as it is. -/
theorem unlabelled_of_aliasFree {v : Value} (h : v.AliasFree) : v.unlabelled = v := by
  induction v using parts_induction with
  | scalar s => rfl
  | sequence items ih =>
    rw [aliasFree_sequence_iff] at h
    rw [unlabelled, unlabelledItems_eq_map, List.map_congr_left fun v hv => ih v hv (h v hv),
      List.map_id']
  | mapping label entries ih =>
    rw [aliasFree_mapping_iff] at h
    obtain ⟨rfl, hparts⟩ := h
    have hentries : entries.map (fun entry => (entry.1, unlabelled entry.2)) = entries.map id :=
      List.map_congr_left fun entry hentry => Prod.ext rfl (ih entry hentry (hparts entry hentry))
    rw [unlabelled, unlabelledEntries_eq_map, hentries, List.map_id]
  | set members => rfl
  | pair first second ihfirst ihsecond =>
    rw [aliasFree_pair_iff] at h
    rw [unlabelled, ihfirst h.1, ihsecond h.2]

/-- Replacing references and taking labels away do not depend on each other. -/
theorem unlabelled_withRefs (f : Text → Text) (v : Value) :
    (withRefs f v).unlabelled = withRefs f v.unlabelled := by
  induction v using parts_induction with
  | scalar s => rfl
  | sequence items ih =>
    rw [withRefs, withRefsItems_eq_map, unlabelled, unlabelledItems_eq_map, unlabelled, withRefs,
      unlabelledItems_eq_map, withRefsItems_eq_map, List.map_map, List.map_map]
    exact congrArg sequence (List.map_congr_left ih)
  | mapping label entries ih =>
    rw [withRefs, withRefsEntries_eq_map, unlabelled, unlabelledEntries_eq_map, unlabelled,
      withRefs, unlabelledEntries_eq_map, withRefsEntries_eq_map, List.map_map, List.map_map]
    refine congrArg (mapping none) (List.map_congr_left fun entry hentry => ?_)
    refine Prod.ext rfl ?_
    show (withRefsAt f entry).unlabelled = withRefsAt f (entry.1, entry.2.unlabelled)
    unfold withRefsAt
    split
    · cases entry.2 with
      | scalar s => cases s <;> rfl
      | _ => rfl
    · exact ih entry hentry
  | set members => rfl
  | pair first second _ _ => rfl

theorem relocated_unlabelled (root base : Path) (v : Value) :
    (v.unlabelled.relocated root base).unlabelled
      = withRefs (redirectRef root base) v.unlabelled := by
  have hfree := aliasFree_unlabelled v
  rw [relocated_eq_withRefs root base hfree, unlabelled_withRefs, unlabelled_of_aliasFree hfree]

/-! ## References that are not met -/

mutual

/-- The references in a value that are not met: those under the key of a reference and in pairs. -/
def hiddenSites : Value → List Site
  | scalar _ => []
  | sequence items => hiddenSitesOfItems items
  | mapping _ entries => hiddenSitesOfEntries entries
  | set _ => []
  | pair first second => (sites first ++ hiddenSites first) ++ (sites second ++ hiddenSites second)

/-- The references in the items of a sequence that are not met. -/
def hiddenSitesOfItems : List Value → List Site
  | [] => []
  | item :: rest => hiddenSites item ++ hiddenSitesOfItems rest

/-- The references in the entries of a mapping that are not met. -/
def hiddenSitesOfEntries : List (Scalar × Value) → List Site
  | [] => []
  | (key, v) :: rest =>
    ((if isRefKey key then sites v else []) ++ hiddenSites v) ++ hiddenSitesOfEntries rest

end

@[simp] theorem hiddenSitesOfItems_eq_flatMap (items : List Value) :
    hiddenSitesOfItems items = items.flatMap hiddenSites := by
  induction items with
  | nil => rfl
  | cons item rest ih => rw [hiddenSitesOfItems, ih, List.flatMap_cons]

/-- The references that are not met in some entries are those of their values, and all those under
the key of a reference. -/
theorem hiddenSitesOfEntries_eq_flatMap (entries : Entries) :
    hiddenSitesOfEntries entries
      = entries.flatMap fun entry =>
          (if isRefKey entry.1 then sites entry.2 else []) ++ hiddenSites entry.2 := by
  induction entries with
  | nil => rfl
  | cons entry rest ih => rw [hiddenSitesOfEntries, ih, List.flatMap_cons]

/-- Every reference of a value is that of a mapping: of the one that its label stands for. -/
theorem Shares.refOf?_held {held : Nat → Entries} {v : Value} (h : v.Shares held) :
    ∀ site ∈ v.sites ++ v.hiddenSites, ∀ number, site.label = some number →
      refOf? (held number) = some site.ref := by
  induction h with
  | scalar s => simp [sites, hiddenSites]
  | sequence _ ih =>
    rw [sites, hiddenSites, sitesOfItems_eq_flatMap, hiddenSitesOfItems_eq_flatMap]
    intro site hsite
    rcases List.mem_append.1 hsite with hsite | hsite
    · obtain ⟨v, hv, hsite⟩ := List.mem_flatMap.1 hsite
      exact ih v hv site (List.mem_append_left _ hsite)
    · obtain ⟨v, hv, hsite⟩ := List.mem_flatMap.1 hsite
      exact ih v hv site (List.mem_append_right _ hsite)
  | @mapping label entries own _ ih =>
    rw [sites, hiddenSites, sitesOfEntries_eq_flatMap, hiddenSitesOfEntries_eq_flatMap]
    intro site hsite number hlabel
    rcases List.mem_append.1 hsite with hsite | hsite
    · rcases List.mem_append.1 hsite with hsite | hsite
      · -- This is the reference of the mapping itself.
        obtain ⟨ref, href, rfl⟩ := Option.map_eq_some_iff.1 (Option.mem_toList.1 hsite)
        rw [← own number hlabel, href]
      · obtain ⟨entry, hentry, hsite⟩ := List.mem_flatMap.1 hsite
        split at hsite
        · cases hsite
        · exact ih entry hentry site (List.mem_append_left _ hsite) number hlabel
    · obtain ⟨entry, hentry, hsite⟩ := List.mem_flatMap.1 hsite
      refine ih entry hentry site ?_ number hlabel
      split at hsite
      · exact hsite
      · exact List.mem_append_right _ hsite
  | set members => simp [sites, hiddenSites]
  | pair _ _ ihleft ihright =>
    rw [sites, hiddenSites, List.nil_append]
    intro site hsite
    rcases List.mem_append.1 hsite with hsite | hsite
    · exact ihleft site hsite
    · exact ihright site hsite

/-- Mappings with the same label have the same reference. -/
theorem Shares.ref_eq {held : Nat → Entries} {v : Value} (h : v.Shares held) {site other : Site}
    (hsite : site ∈ v.sites ++ v.hiddenSites) (hother : other ∈ v.sites ++ v.hiddenSites)
    {number : Nat} (hlabel : site.label = some number) (hlabel' : other.label = some number) :
    site.ref = other.ref := by
  have href := h.refOf?_held site hsite number hlabel
  rw [h.refOf?_held other hother number hlabel'] at href
  exact (Option.some.inj href).symm

end Value

/-! ## Redirection of repeated mappings -/

namespace Site

/-- How the reference of a site reads after redirection. -/
def redirected (settled : Repeated) (redirect : Text → Text) (site : Site) : Text :=
  (site.label.bind fun label => settled.lookup label).getD (redirect site.ref)

end Site

namespace Value

/-- An entry is redirected like one without labels if its reference reads as if it had been redirected
on its own and what stands in it is redirected like a value without labels. -/
theorem unlabelled_redirectAt {settled : Repeated} {redirect : Text → Text}
    {own : Option Text} {entry : Scalar × Value}
    (reference : isRefKey entry.1 = true → ∀ ref, entry.2 = text ref →
      own.getD (redirect ref) = redirect ref)
    (foreign : isRefKey entry.1 = true →
      (redirectRefs settled id entry.2).unlabelled = withRefs id entry.2.unlabelled)
    (other : isRefKey entry.1 = false →
      (redirectRefs settled redirect entry.2).unlabelled = withRefs redirect entry.2.unlabelled) :
    (redirectAt settled redirect own entry).unlabelled
      = withRefsAt redirect (entry.1, entry.2.unlabelled) := by
  obtain ⟨key, v⟩ := entry
  cases hkey : isRefKey key with
  | false =>
    rw [redirectAt_of_other hkey, withRefsAt, if_neg (by simp [hkey])]
    exact other hkey
  | true =>
    rw [withRefsAt, if_pos hkey]
    by_cases htext : ∃ ref, v = text ref
    · obtain ⟨ref, rfl⟩ := htext
      rw [redirectAt_of_text hkey, reference hkey ref rfl]
      rfl
    · have hforeign : ∀ ref, v ≠ text ref := fun ref heq => htext ⟨ref, heq⟩
      have hforeign' : ∀ ref, v.unlabelled ≠ text ref := by
        intro ref heq
        refine hforeign ref (eq_text_of_text? ?_)
        rw [← text?_unlabelled, heq]
        rfl
      rw [redirectAt_of_foreign hkey hforeign, foreign hkey, withRefs_id,
        replaceRef_of_foreign redirect hforeign']

/-- A value is redirected like one without labels if every reference that is met reads as if it had
been redirected on its own, and every other one as it stands. -/
theorem unlabelled_redirectRefs {settled : Repeated} {redirect : Text → Text} {v : Value}
    (distinct : v.Distinct)
    (met : ∀ site ∈ v.sites, site.redirected settled redirect = redirect site.ref)
    (hidden : ∀ site ∈ v.hiddenSites, site.redirected settled id = site.ref) :
    (redirectRefs settled redirect v).unlabelled = withRefs redirect v.unlabelled := by
  induction v using parts_induction generalizing redirect with
  | scalar s => rfl
  | sequence items ih =>
    cases distinct with
    | sequence parts =>
    rw [sites, sitesOfItems_eq_flatMap] at met
    rw [hiddenSites, hiddenSitesOfItems_eq_flatMap] at hidden
    rw [redirectRefs, redirectItems_eq_map, unlabelled, unlabelledItems_eq_map, unlabelled,
      withRefs, unlabelledItems_eq_map, withRefsItems_eq_map, List.map_map, List.map_map]
    refine congrArg sequence (List.map_congr_left fun item hitem => ih item hitem
      (parts item hitem) (fun site hsite => met site ?_) fun site hsite => hidden site ?_)
    · exact List.mem_flatMap.2 ⟨item, hitem, hsite⟩
    · exact List.mem_flatMap.2 ⟨item, hitem, hsite⟩
  | mapping label entries ih =>
    cases distinct with
    | mapping apart parts =>
    rw [sites, sitesOfEntries_eq_flatMap] at met
    rw [hiddenSites, hiddenSitesOfEntries_eq_flatMap] at hidden
    rw [redirectRefs, redirectEntries_eq_map, unlabelled, unlabelledEntries_eq_map, unlabelled,
      withRefs, unlabelledEntries_eq_map, withRefsEntries_eq_map, List.map_map, List.map_map]
    refine congrArg (mapping none) (List.map_congr_left fun entry hentry => Prod.ext rfl ?_)
    have hinner : ∀ site ∈ (if isRefKey entry.1 then sites entry.2 else []) ++ hiddenSites entry.2,
        site.redirected settled id = site.ref := fun site hsite =>
      hidden site (List.mem_flatMap.2 ⟨entry, hentry, hsite⟩)
    rw [List.forall_mem_append] at hinner
    refine unlabelled_redirectAt (fun hkey ref href => ?_) (fun hkey => ?_) fun hkey => ?_
    · -- The reference of the mapping is the first of its places.
      have hown : refOf? entries = some ref :=
        (refOf?_eq_some_iff apart ref).2 ⟨entry, hentry, hkey, href⟩
      exact met ⟨label, ref⟩ (List.mem_append_left _ (by rw [hown]; simp))
    · rw [if_pos hkey] at hinner
      exact ih entry hentry (parts entry hentry) hinner.1 hinner.2
    · refine ih entry hentry (parts entry hentry) (fun site hsite => met site ?_) hinner.2
      refine List.mem_append_right _ (List.mem_flatMap.2 ⟨entry, hentry, ?_⟩)
      rw [hkey]
      exact hsite
  | set members => rfl
  | pair first second ihfirst ihsecond =>
    cases distinct with
    | pair left right =>
    rw [hiddenSites, List.forall_mem_append, List.forall_mem_append, List.forall_mem_append] at hidden
    rw [redirectRefs, unlabelled, unlabelled, withRefs,
      ihfirst left hidden.1.1 hidden.1.2, ihsecond right hidden.2.1 hidden.2.2, withRefs_id,
      withRefs_id]

end Value

namespace Site

/-- A mapping that has been met before is met once more. -/
def MetAgain (places : List Site) (site : Site) : Prop :=
  ∃ before after, places = before ++ site :: after ∧ site.label ≠ none ∧
    ∃ earlier ∈ before, earlier.label = site.label

theorem MetAgain.mem {places : List Site} {site : Site} (h : MetAgain places site) :
    site ∈ places := by
  obtain ⟨before, after, rfl, -⟩ := h
  exact List.mem_append_right _ List.mem_cons_self

/-- What repeated mappings hold has been redirected once from the references that were met. -/
def Remembers (redirect : Text → Text) (before : List Site) (repeated : Repeated) : Prop :=
  ∀ number ref, repeated.lookup number = some ref →
    ∃ site ∈ before, site.label = some number ∧ ref = redirect site.ref

/-- Some places at which the redirections of repeated mappings come to rest at once. -/
structure Steady (redirect : Text → Text) (places : List Site) : Prop where
  /-- Mappings with the same label have the same reference. -/
  uniform : ∀ site ∈ places, ∀ other ∈ places, ∀ number, site.label = some number →
    other.label = some number → site.ref = other.ref
  /-- The reference of a mapping that is met again does not change any more. -/
  again : ∀ site, MetAgain places site → redirect (redirect site.ref) = redirect site.ref

variable {redirect : Text → Text} {before after places : List Site} {site : Site}
  {repeated : Repeated}

/-- A site reads as it stands, or it is met again and reads as the first one has left it. -/
theorem Steady.current (h : Steady redirect (before ++ site :: after))
    (remembers : Remembers redirect before repeated) :
    site.current repeated = site.ref ∨ site.current repeated = redirect site.ref ∧
      MetAgain (before ++ site :: after) site ∧ ∃ earlier ∈ before, earlier.ref = site.ref := by
  rw [Site.current]
  cases hlookup : site.label.bind fun label => repeated.lookup label with
  | none => exact Or.inl rfl
  | some ref =>
    obtain ⟨number, hlabel, hfound⟩ := Option.bind_eq_some_iff.1 hlookup
    obtain ⟨earlier, hearlier, hearlierLabel, rfl⟩ := remembers number ref hfound
    have hsame : earlier.ref = site.ref :=
      h.uniform earlier (List.mem_append_left _ hearlier) site
        (List.mem_append_right _ List.mem_cons_self) number hearlierLabel hlabel
    have hsome : site.label ≠ none := by
      rw [hlabel]
      exact Option.some_ne_none number
    rw [Option.getD_some, hsame]
    exact Or.inr ⟨rfl, ⟨before, after, rfl, hsome, earlier, hearlier,
      hearlierLabel.trans hlabel.symm⟩, earlier, hearlier, hsame⟩

/-- Meeting a site keeps what is remembered. -/
theorem Steady.remembers (h : Steady redirect (before ++ site :: after))
    (remembers : Remembers redirect before repeated) :
    Remembers redirect (before ++ [site]) (site.afterwards redirect repeated) := by
  have hkeep : Remembers redirect (before ++ [site]) repeated := by
    intro number ref hfound
    obtain ⟨earlier, hearlier, hlabel, href⟩ := remembers number ref hfound
    exact ⟨earlier, List.mem_append_left _ hearlier, hlabel, href⟩
  rw [afterwards]
  split
  · exact hkeep
  · next own hown =>
    intro number ref hfound
    rw [List.lookup_cons] at hfound
    split at hfound
    · next hnumber =>
      rw [beq_iff_eq] at hnumber
      subst hnumber
      refine ⟨site, List.mem_append_right _ List.mem_cons_self, hown, ?_⟩
      rw [← Option.some.inj hfound]
      rcases h.current remembers with hcurrent | ⟨hcurrent, hagain, -⟩
      · rw [hcurrent]
      · rw [hcurrent, h.again site hagain]
    · exact hkeep number ref hfound

/-- After some more sites all of them are remembered. -/
theorem Steady.remembers_foldl (h : Steady redirect (before ++ after))
    (remembers : Remembers redirect before repeated) :
    Remembers redirect (before ++ after) (after.foldl (Site.afterwards redirect) repeated) := by
  induction after generalizing before repeated with
  | nil => rwa [List.append_nil]
  | cons site rest ih =>
    have hnext := h.remembers remembers
    rw [← List.singleton_append, ← List.append_assoc] at h ⊢
    exact ih h hnext

/-- In the end repeated mappings hold what their references are redirected to. -/
theorem Steady.remembers_settled (h : Steady redirect places) :
    Remembers redirect places (settled redirect places) := by
  have first : Remembers redirect [] [] := by
    intro number ref hfound
    cases hfound
  have hall : Steady redirect ([] ++ places) := h
  exact hall.remembers_foldl first

end Site

/-! ## Relocation of repeated mappings -/

/-- A reference that keeps its meaning when it is redirected comes to rest at once. -/
theorem redirectRef_redirectRef {root base : Path} {ref : Text}
    (h : base = root ∨ meaning root base (redirectRef root base ref) = meaning root base ref) :
    redirectRef root base (redirectRef root base ref) = redirectRef root base ref := by
  rcases h with rfl | h
  · exact redirectRef_redirectRef_root ref
  · cases hmeaning : meaning root base ref with
    | error fault =>
      have hself : redirectRef root base ref = ref := by rw [redirectRef, hmeaning]
      rw [hself, hself]
    | ok meant =>
      cases meant with
      | itself =>
        have hself : redirectRef root base ref = ref := by rw [redirectRef, hmeaning]
        rw [hself, hself]
      | inRoot pointer =>
        rw [hmeaning] at h
        rw [redirectRef, h, redirectRef, hmeaning]
      | external target =>
        rw [hmeaning] at h
        rw [redirectRef, h, redirectRef, hmeaning]

namespace Value

/-- A part of the file `base` in which the redirections of repeated mappings come to rest at once: a
reference that is met again means what it meant before it was redirected, and one that also stands
where it is not met is not changed by redirection. -/
structure Settles (root base : Path) (v : Value) : Prop where
  /-- Of a mapping that is met again. -/
  again : ∀ site, Site.MetAgain v.sites site →
    base = root ∨ meaning root base (redirectRef root base site.ref) = meaning root base site.ref
  /-- Of a mapping that is met at one place and not at another one. -/
  hidden : ∀ site ∈ v.hiddenSites, ∀ other ∈ v.sites, site.label ≠ none →
    site.label = other.label → redirectRef root base site.ref = site.ref

/-- The places of the references in such a part are steady. -/
theorem Settles.steady {root base : Path} {held : Nat → Entries} {v : Value}
    (h : v.Settles root base) (shares : v.Shares held) :
    Site.Steady (redirectRef root base) v.sites where
  uniform _ hsite _ hother _ hlabel hlabel' :=
    shares.ref_eq (List.mem_append_left _ hsite) (List.mem_append_left _ hother) hlabel hlabel'
  again site hagain := redirectRef_redirectRef (h.again site hagain)

/-- In the end a repeated mapping holds the reference of one of its places that are met, redirected. -/
theorem Settles.exists_met {root base : Path} {held : Nat → Entries} {v : Value}
    (h : v.Settles root base) (shares : v.Shares held) {site : Site}
    (hsite : site ∈ v.sites ++ v.hiddenSites) {ref : Text}
    (hlookup : (site.label.bind fun label =>
      (Site.settled (redirectRef root base) v.sites).lookup label) = some ref) :
    ref = redirectRef root base site.ref ∧
      ∃ other ∈ v.sites, site.label ≠ none ∧ site.label = other.label := by
  obtain ⟨number, hlabel, hfound⟩ := Option.bind_eq_some_iff.1 hlookup
  obtain ⟨other, hother, hlabel', rfl⟩ := (h.steady shares).remembers_settled number ref hfound
  refine ⟨?_, other, hother, ?_, hlabel.trans hlabel'.symm⟩
  · rw [shares.ref_eq (List.mem_append_left _ hother) hsite hlabel' hlabel]
  · rw [hlabel]
    exact Option.some_ne_none number

/-- **Relocation without labels.**  A part in which redirections come to rest at once is relocated
like one without labels. -/
theorem unlabelled_relocated {root base : Path} {held : Nat → Entries} {v : Value}
    (h : v.Settles root base) (distinct : v.Distinct) (shares : v.Shares held) :
    (v.relocated root base).unlabelled = (v.unlabelled.relocated root base).unlabelled := by
  rw [relocated_unlabelled, relocated]
  refine unlabelled_redirectRefs distinct (fun site hsite => ?_) fun site hsite => ?_
  · rw [Site.redirected]
    cases hlookup : site.label.bind fun label =>
        (Site.settled (redirectRef root base) v.sites).lookup label with
    | none => rfl
    | some ref => exact (h.exists_met shares (List.mem_append_left _ hsite) hlookup).1
  · rw [Site.redirected]
    cases hlookup : site.label.bind fun label =>
        (Site.settled (redirectRef root base) v.sites).lookup label with
    | none => rfl
    | some ref =>
      obtain ⟨rfl, other, hother, hsome, hsame⟩ :=
        h.exists_met shares (List.mem_append_right _ hsite) hlookup
      exact h.hidden site hsite other hother hsome hsame

end Value

end SchemaCodecs
