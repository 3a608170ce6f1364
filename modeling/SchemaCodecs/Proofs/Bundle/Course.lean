/-
# Ways through a value

A way that comes to the end of a value meets all references of the value, in order.  Any other way
meets only such references, each of them as often as it comes round.

* `ends_of_isFinite` : without marks the way comes to the end;
* `Ends.sitesMet_eq` : then all references are met, each of them once;
* `sitesMet_subset` : on no way are others met;
* `IsSilent` : nothing is met on a way, and it comes to the end.
-/
import SchemaCodecs.Bundle.Course
import SchemaCodecs.Proofs.Bundle.Relocation
import SchemaCodecs.Proofs.Value.Recurrence

namespace SchemaCodecs

/-! ## One way after another -/

namespace Course

@[simp] theorem onward_andThen_eq_through_iff (first second : Course) :
    (first.andThen second).onward = .through ↔
      first.onward = .through ∧ second.onward = .through := by
  unfold andThen
  split <;> simp_all

theorem sites_andThen {first : Course} (h : first.onward = .through) (second : Course) :
    (first.andThen second).sites = first.sites ++ second.sites := by
  rw [andThen, h]

@[simp] theorem onward_enclosed_eq_through_iff (course : Course) :
    course.enclosed.onward = .through ↔ course.onward = .through := by
  unfold enclosed
  split <;> simp_all

@[simp] theorem sites_enclosed (course : Course) : course.enclosed.sites = course.sites := by
  unfold enclosed
  split <;> rfl

/-- The places on a way are among the given ones, also those that are met in every round. -/
structure Within (course : Course) (sites : List Site) : Prop where
  /-- Those that are met first. -/
  first : course.sites ⊆ sites
  /-- Those of a round. -/
  later : ∀ again, course.onward = .round again → again ⊆ sites

/-- What two ways stay within, they stay within one after the other. -/
theorem Within.andThen {first second : Course} {sites others : List Site}
    (hfirst : first.Within sites) (hsecond : second.Within others) :
    (first.andThen second).Within (sites ++ others) := by
  unfold Course.andThen
  split
  · exact ⟨List.append_subset.2 ⟨fun _ h => List.mem_append_left _ (hfirst.first h),
        fun _ h => List.mem_append_right _ (hsecond.first h)⟩,
      fun again heq _ h => List.mem_append_right _ (hsecond.later again heq h)⟩
  · exact ⟨fun _ h => List.mem_append_left _ (hfirst.first h),
      fun again heq _ h => List.mem_append_left _ (hfirst.later again heq h)⟩

/-- A way through a collection stays within what the way through its parts stays within. -/
theorem Within.enclosed {course : Course} {sites : List Site} (h : course.Within sites) :
    course.enclosed.Within sites := by
  refine ⟨by rw [sites_enclosed]; exact h.first, fun again heq => ?_⟩
  unfold Course.enclosed at heq
  split at heq
  · cases heq
    exact h.first
  · cases heq
  · exact h.later again heq

end Course

namespace Value

/-! ## Ways that come to the end -/

/-- A way through items that comes to the end meets all their references. -/
theorem courseOfItems_eq {items : List Value}
    (parts : ∀ v ∈ items, v.course.onward = .through → v.course.sites = v.sites)
    (h : (courseOfItems items).onward = .through) :
    (courseOfItems items).sites = sitesOfItems items := by
  induction items with
  | nil => rfl
  | cons item rest ih =>
    obtain ⟨hitem, hrest⟩ := List.forall_mem_cons.1 parts
    rw [courseOfItems, Course.onward_andThen_eq_through_iff] at h
    rw [courseOfItems, Course.sites_andThen h.1, sitesOfItems, hitem h.1, ih hrest h.2]

/-- A way through entries that comes to the end meets all references of their values. -/
theorem courseOfEntries_eq {entries : Entries}
    (parts : ∀ entry ∈ entries, entry.2.course.onward = .through →
      entry.2.course.sites = entry.2.sites)
    (h : (courseOfEntries entries).onward = .through) :
    (courseOfEntries entries).sites = sitesOfEntries entries := by
  induction entries with
  | nil => rfl
  | cons entry rest ih =>
    obtain ⟨key, v⟩ := entry
    obtain ⟨hentry, hrest⟩ := List.forall_mem_cons.1 parts
    rw [courseOfEntries, Course.onward_andThen_eq_through_iff] at h
    rw [courseOfEntries, Course.sites_andThen h.1, sitesOfEntries, ih hrest h.2]
    congr 1
    split
    · rfl
    · next hkey =>
      rw [if_neg hkey] at h
      exact hentry h.1

/-- The way through a value comes to the end. -/
def Ends (v : Value) : Prop :=
  v.course.onward = .through

@[simp] theorem ends_sequence_iff (items : List Value) :
    (sequence items).Ends ↔ ∀ v ∈ items, v.Ends := by
  rw [Ends, course, Course.onward_enclosed_eq_through_iff]
  induction items with
  | nil => simp [courseOfItems]
  | cons item rest ih =>
    rw [courseOfItems, Course.onward_andThen_eq_through_iff, ih, List.forall_mem_cons]
    rfl

@[simp] theorem ends_mapping_iff (label : Option Nat) (entries : Entries) :
    (mapping label entries).Ends ↔ ∀ entry ∈ entries, isRefKey entry.1 = false → entry.2.Ends := by
  rw [Ends, course, Course.onward_enclosed_eq_through_iff, Course.onward_andThen_eq_through_iff,
    and_iff_right rfl]
  induction entries with
  | nil => simp [courseOfEntries]
  | cons entry rest ih =>
    obtain ⟨key, v⟩ := entry
    rw [courseOfEntries, Course.onward_andThen_eq_through_iff, ih, List.forall_mem_cons]
    refine and_congr_left fun _ => ?_
    cases hkey : isRefKey key with
    | true => simp
    | false => simp [Ends]

/-- A way that comes to the end meets all references. -/
theorem sites_course {v : Value} (h : v.Ends) : v.course.sites = v.sites := by
  induction v using parts_induction with
  | scalar s => cases s <;> rfl
  | sequence items ih =>
    rw [Ends, course, Course.onward_enclosed_eq_through_iff] at h
    rw [course, Course.sites_enclosed, sites, courseOfItems_eq ih h]
  | mapping label entries ih =>
    rw [Ends, course, Course.onward_enclosed_eq_through_iff,
      Course.onward_andThen_eq_through_iff] at h
    rw [course, Course.sites_enclosed, Course.sites_andThen h.1, sites, courseOfEntries_eq ih h.2]
  | set _ => rfl
  | pair _ _ _ _ => rfl

/-- In a value without marks every way comes to the end. -/
theorem ends_of_isFinite {v : Value} (h : v.isFinite = true) : v.Ends := by
  induction v using parts_induction with
  | scalar s =>
    cases s with
    | again place => cases h
    | _ => rfl
  | sequence items ih =>
    rw [isFinite_sequence_iff] at h
    exact (ends_sequence_iff items).2 fun v hv => ih v hv (h v hv)
  | mapping label entries ih =>
    rw [isFinite_mapping_iff] at h
    exact (ends_mapping_iff label entries).2 fun entry hentry _ => ih entry hentry (h entry hentry)
  | set _ => rfl
  | pair _ _ _ _ => rfl

@[simp] theorem ends_unlabelled_iff (v : Value) : v.unlabelled.Ends ↔ v.Ends := by
  induction v using parts_induction with
  | scalar s => rfl
  | sequence items ih =>
    rw [unlabelled, unlabelledItems_eq_map, ends_sequence_iff, ends_sequence_iff,
      List.forall_mem_map]
    exact forall₂_congr ih
  | mapping label entries ih =>
    rw [unlabelled, unlabelledEntries_eq_map, ends_mapping_iff, ends_mapping_iff,
      List.forall_mem_map]
    exact forall₂_congr fun entry hentry => imp_congr_right fun _ => ih entry hentry
  | set _ => rfl
  | pair _ _ _ _ => rfl

@[simp] theorem isEndless_eq_false_iff (v : Value) : v.isEndless = false ↔ v.Ends := by
  simp [isEndless, Ends]

theorem isEndless_of_isFinite {v : Value} (h : v.isFinite = true) : v.isEndless = false :=
  (isEndless_eq_false_iff v).2 (ends_of_isFinite h)

theorem Ends.sitesMet_eq {v : Value} (h : v.Ends) (base : Path) : v.sitesMet base = v.sites := by
  have honward : v.course.onward = .through := h
  rw [sitesMet, honward, sites_course h]
  exact List.append_nil _

/-! ## All ways -/

/-- A way stays within the references of the value. -/
theorem within_course (v : Value) : v.course.Within v.sites := by
  have empty : ∀ sites, Course.Within {} sites := fun sites =>
    ⟨List.nil_subset _, fun again heq => by cases heq⟩
  induction v using parts_induction with
  | scalar s =>
    cases s with
    | again place => exact ⟨List.nil_subset _, fun again heq => by cases heq⟩
    | _ => exact empty _
  | sequence items ih =>
    rw [course, sites]
    refine Course.Within.enclosed ?_
    induction items with
    | nil => exact empty _
    | cons item rest ihrest =>
      obtain ⟨hitem, hrest⟩ := List.forall_mem_cons.1 ih
      rw [courseOfItems, sitesOfItems]
      exact hitem.andThen (ihrest hrest)
  | mapping label entries ih =>
    rw [course, sites]
    refine Course.Within.enclosed
      (Course.Within.andThen ⟨List.Subset.refl _, fun again heq => by cases heq⟩ ?_)
    induction entries with
    | nil => exact empty _
    | cons entry rest ihrest =>
      obtain ⟨key, v⟩ := entry
      obtain ⟨hentry, hrest⟩ := List.forall_mem_cons.1 ih
      rw [courseOfEntries, sitesOfEntries]
      refine Course.Within.andThen ?_ (ihrest hrest)
      split
      · exact empty _
      · exact hentry
  | set _ => exact empty _
  | pair _ _ _ _ => exact empty _

/-- The references that are met are references of the value. -/
theorem sitesMet_subset (base : Path) (v : Value) : v.sitesMet base ⊆ v.sites := by
  have within := v.within_course
  refine List.append_subset.2 ⟨within.first, ?_⟩
  cases honward : v.course.onward with
  | through => exact List.nil_subset _
  | out levels => exact List.nil_subset _
  | round again =>
    intro site hsite
    obtain ⟨round, hround, hmem⟩ := List.mem_flatten.1 hsite
    rw [List.eq_of_mem_replicate hround] at hmem
    exact within.later again honward hmem

end Value

/-! ## Places that are changed -/

/-- How a way goes on when each of its places is changed. -/
def Onward.map (f : Site → Site) : Onward → Onward
  | through => through
  | out levels => out levels
  | round again => round (again.map f)

/-- A way with each of its places changed. -/
def Course.map (f : Site → Site) (course : Course) : Course :=
  ⟨course.sites.map f, course.onward.map f⟩

section Changing

variable (f : Site → Site)

@[simp] theorem Course.map_andThen (first second : Course) :
    (first.andThen second).map f = (first.map f).andThen (second.map f) := by
  obtain ⟨sites, onward⟩ := first
  cases onward with
  | through => simp [andThen, map, Onward.map]
  | out levels => rfl
  | round again => rfl

@[simp] theorem Course.map_enclosed (course : Course) :
    course.enclosed.map f = (course.map f).enclosed := by
  obtain ⟨sites, onward⟩ := course
  cases onward with
  | through => rfl
  | out levels => cases levels <;> rfl
  | round again => rfl

variable {f}

theorem roundBound_map (keeps : ∀ site, (f site).ref = site.ref) (base : Path) (sites : List Site) :
    roundBound base (sites.map f) = roundBound base sites := by
  rw [roundBound, roundBound, List.foldr_map]
  simp only [keeps]

@[simp] theorem Onward.sites_map (keeps : ∀ site, (f site).ref = site.ref) (base : Path)
    (onward : Onward) :
    (onward.map f).sites base = (onward.sites base).map f := by
  cases onward with
  | through => rfl
  | out levels => rfl
  | round again =>
    rw [map, sites, sites, roundBound_map keeps, List.map_flatten, List.map_replicate]

theorem Value.sitesMet_eq_map {v w : Value} (h : w.course = v.course.map f)
    (keeps : ∀ site, (f site).ref = site.ref) (base : Path) :
    w.sitesMet base = (v.sitesMet base).map f := by
  rw [sitesMet, sitesMet, h, List.map_append]
  exact congrArg (v.course.sites.map f ++ ·) (Onward.sites_map keeps base v.course.onward)

theorem Value.isEndless_eq_of_map {v w : Value} (h : w.course = v.course.map f) :
    w.isEndless = v.isEndless := by
  rw [isEndless, isEndless, h, Course.map]
  cases v.course.onward <;> rfl

end Changing

/-! ## Ways on which nothing is met -/

@[simp] theorem Course.andThen_eq_empty_iff (first second : Course) :
    first.andThen second = {} ↔ first = {} ∧ second = {} := by
  obtain ⟨sites, onward⟩ := first
  obtain ⟨others, onward'⟩ := second
  cases onward <;> simp [andThen, and_assoc]

@[simp] theorem Course.enclosed_eq_empty_iff (course : Course) :
    course.enclosed = {} ↔ course = {} := by
  obtain ⟨sites, onward⟩ := course
  cases onward with
  | through => rfl
  | out levels => cases levels <;> simp [enclosed]
  | round again => rfl

namespace Value

/-- Nothing is met on the way through a value, and the way comes to the end. -/
def IsSilent (v : Value) : Prop :=
  v.course = {}

instance (v : Value) : Decidable v.IsSilent :=
  inferInstanceAs (Decidable (v.course = {}))

theorem IsSilent.sites_eq {v : Value} (h : v.IsSilent) : v.sites = [] := by
  have hcourse : v.course = {} := h
  have hends : v.Ends := congrArg Course.onward hcourse
  rw [← sites_course hends, hcourse]

@[simp] theorem isSilent_sequence_iff (items : List Value) :
    (sequence items).IsSilent ↔ ∀ v ∈ items, v.IsSilent := by
  rw [IsSilent, course, Course.enclosed_eq_empty_iff]
  induction items with
  | nil => simp [courseOfItems]
  | cons item rest ih =>
    rw [courseOfItems, Course.andThen_eq_empty_iff, ih, List.forall_mem_cons]
    rfl

/-- The way through some entries is empty if their values are silent, but for what stands under the key
of a reference. -/
theorem courseOfEntries_eq_empty_iff (entries : Entries) :
    courseOfEntries entries = {} ↔
      ∀ entry ∈ entries, isRefKey entry.1 = false → entry.2.IsSilent := by
  induction entries with
  | nil => simp [courseOfEntries]
  | cons entry rest ih =>
    obtain ⟨key, v⟩ := entry
    rw [courseOfEntries, Course.andThen_eq_empty_iff, ih, List.forall_mem_cons]
    refine and_congr_left fun _ => ?_
    cases hkey : isRefKey key with
    | true => simp
    | false => simp [IsSilent]

@[simp] theorem isSilent_mapping_iff (label : Option Nat) (entries : Entries) :
    (mapping label entries).IsSilent ↔ refOf? entries = none ∧
      ∀ entry ∈ entries, isRefKey entry.1 = false → entry.2.IsSilent := by
  rw [IsSilent, course, Course.enclosed_eq_empty_iff, Course.andThen_eq_empty_iff,
    courseOfEntries_eq_empty_iff]
  refine and_congr_left fun _ => ?_
  cases refOf? entries <;> simp

end Value

end SchemaCodecs
