/-
# Changes of file trees

What stands at the places of a tree after an entry is put or taken away, and what a path leads to
afterwards: as long as directories stay directories, it leads to the same place.  An action on a
disk that is made of steps changes the tree within every relation that its steps keep to.

* `find?_put_of_ne`, `find?_erase_of_ne` : the other places stay as they were;
* `locate_eq_plain`, `locate_mono` : where a path leads to;
* `Disk.Within` : the changes of an action, whether or not it is refused.
-/
import SchemaCodecs.FileTree.Disk

namespace SchemaCodecs

namespace FileTree

variable {tree tree' : FileTree}

/-! ## Entries -/

theorem find?_root (tree : FileTree) : tree.find? Path.root = some .directory := by
  rw [find?, if_pos rfl]

theorem find?_put_self (tree : FileTree) {place : Path} (h : place ≠ Path.root) (entry : Entry) :
    (tree.put place entry).find? place = some entry := by
  rw [find?, if_neg h, put, List.find?_cons_of_pos (by simp)]
  rfl

/-- What stands at other places than one is found among the entries for other places. -/
theorem find?_filter_of_ne (entries : List (Path × Entry)) {place other : Path} (h : other ≠ place) :
    (entries.filter fun entry => entry.1 ≠ place).find? (fun entry => entry.1 = other)
      = entries.find? fun entry => entry.1 = other := by
  rw [List.find?_filter]
  congr 1
  funext entry
  by_cases hentry : entry.1 = other
  · simp [hentry, h]
  · simp [hentry]

theorem find?_put_of_ne (tree : FileTree) {place other : Path} (h : other ≠ place) (entry : Entry) :
    (tree.put place entry).find? other = tree.find? other := by
  rw [find?, find?, put, List.find?_cons_of_neg (by simpa using h.symm), find?_filter_of_ne _ h]

theorem find?_erase_self (tree : FileTree) {place : Path} (h : place ≠ Path.root) :
    (tree.erase place).find? place = none := by
  rw [find?, if_neg h, erase, List.find?_filter, Option.map_eq_none_iff, List.find?_eq_none]
  simp

theorem find?_erase_of_ne (tree : FileTree) {place other : Path} (h : other ≠ place) :
    (tree.erase place).find? other = tree.find? other := by
  rw [find?, find?, erase, find?_filter_of_ne _ h]

theorem ne_root_of_find? {place : Path} (h : tree.find? place ≠ some .directory) :
    place ≠ Path.root := by
  rintro rfl
  exact h (find?_root tree)

theorem ne_root_of_none {place : Path} (h : tree.find? place = none) : place ≠ Path.root := by
  rintro rfl
  rw [find?_root] at h
  cases h

/-! ## Following a path -/

/-- All names that are followed lead to directories. -/
theorem find?_of_enter {here directory : Path} {names front : List Text}
    (h : tree.enter here names = .ok directory) (hfront : front <+: names) (some : front ≠ []) :
    tree.find? (front.foldl Path.step here) = .some .directory := by
  induction names generalizing here front with
  | nil => exact absurd (List.prefix_nil.1 hfront) some
  | cons name rest ih =>
    obtain ⟨first, others, rfl⟩ := List.exists_cons_of_ne_nil some
    obtain ⟨rfl, hothers⟩ := List.cons_prefix_cons.1 hfront
    rw [enter] at h
    split at h
    · cases h
    · split at h
      · cases h
      · cases h
      · next hfound =>
        cases others with
        | nil => exact hfound
        | cons second others =>
          have hrest := ih h hothers (List.cons_ne_nil second others)
          exact hrest

/-- All names on a path that leads somewhere, except the last, lead to directories. -/
theorem find?_of_locate {path place : Path} {front : List Text}
    (h : tree.locate path = .ok place) (hfront : front <+: path.names.dropLast) :
    tree.find? ({ names := front } : Path).plain = some .directory := by
  cases front with
  | nil => exact find?_root tree
  | cons first others =>
    rcases (follow_eq_ok_iff _ _ _).1 ((locate_eq_ok_iff _ _ _).1 h).2 with
      ⟨hnil, rfl⟩ | ⟨names, last, directory, heq, henter, -⟩
    · rw [hnil] at hfront
      exact absurd (List.prefix_nil.1 hfront) (List.cons_ne_nil _ _)
    · rw [heq, List.dropLast_concat] at hfront
      exact find?_of_enter henter hfront (List.cons_ne_nil _ _)

section Staying

variable (stay : ∀ place, tree.find? place = some .directory → tree'.find? place = some .directory)

include stay

/-- Where directories stay directories, names lead to the same directory. -/
theorem enter_mono {here directory : Path} {names : List Text}
    (h : tree.enter here names = .ok directory) : tree'.enter here names = .ok directory := by
  induction names generalizing here with
  | nil => exact h
  | cons name rest ih =>
    rw [enter] at h ⊢
    split at h
    · cases h
    · next hshort =>
      rw [if_neg hshort]
      split at h
      · cases h
      · cases h
      · next hfound =>
        rw [stay _ hfound]
        exact ih h

/-- Where directories stay directories, a path leads to the same place. -/
theorem locate_mono {path place : Path} (h : tree.locate path = .ok place) :
    tree'.locate path = .ok place := by
  obtain ⟨hshort, hfollow⟩ := (locate_eq_ok_iff _ _ _).1 h
  refine (locate_eq_ok_iff _ _ _).2 ⟨hshort, (follow_eq_ok_iff _ _ _).2 ?_⟩
  exact ((follow_eq_ok_iff _ _ _).1 hfollow).imp_right
    fun ⟨front, last, directory, heq, henter, hplace⟩ =>
      ⟨front, last, directory, heq, enter_mono stay henter, hplace⟩

end Staying

/-! ## Steps -/

/-- A file is made where nothing was. -/
theorem create_eq_ok {path : Path} (h : tree.create path = .ok tree') :
    tree.locate path = .ok path.plain ∧ tree.find? path.plain = none ∧
      tree' = tree.put path.plain (.file []) := by
  obtain ⟨place, hplace, hput⟩ := (bind_eq_ok_iff _ _ _).1 h
  obtain rfl := locate_eq_plain hplace
  split at hput
  · cases hput
  · next hnone => exact ⟨hplace, hnone, (Except.ok.inj hput).symm⟩

/-- A file is written where no directory was. -/
theorem write_eq_ok {path : Path} {bytes : List UInt8} (h : tree.write path bytes = .ok tree') :
    tree.locate path = .ok path.plain ∧ tree.find? path.plain ≠ some .directory ∧
      tree' = tree.put path.plain (.file bytes) := by
  obtain ⟨place, hplace, hput⟩ := (bind_eq_ok_iff _ _ _).1 h
  obtain rfl := locate_eq_plain hplace
  split at hput
  · cases hput
  · next hno => exact ⟨hplace, hno, (Except.ok.inj hput).symm⟩

/-- A directory is made where nothing was. -/
theorem makeDirectory_eq_ok {path : Path} (h : tree.makeDirectory path = .ok tree') :
    tree.locate path = .ok path.plain ∧ tree.find? path.plain = none ∧
      tree' = tree.put path.plain .directory := by
  obtain ⟨place, hplace, hput⟩ := (bind_eq_ok_iff _ _ _).1 h
  obtain rfl := locate_eq_plain hplace
  split at hput
  · cases hput
  · next hnone => exact ⟨hplace, hnone, (Except.ok.inj hput).symm⟩

/-- What is moved goes from one place to the other, where no directory was. -/
theorem move_eq_ok {source target : Path} (h : tree.move source target = .ok tree') :
    endsInName target = true ∧ tree.locate target = .ok target.plain ∧
      tree.find? target.plain ≠ some .directory ∧
        ∃ entry, tree.find? source.plain = some entry ∧
          tree' = (tree.erase source.plain).put target.plain entry := by
  obtain ⟨start, hstart, h⟩ := (bind_eq_ok_iff _ _ _).1 h
  obtain ⟨goal, hgoal, h⟩ := (bind_eq_ok_iff _ _ _).1 h
  obtain rfl := locate_eq_plain hstart
  obtain rfl := locate_eq_plain hgoal
  cases hname : endsInName target with
  | false => simp [hname, bind, Except.bind, throw, throwThe, MonadExceptOf.throw] at h
  | true =>
    simp only [hname, Bool.not_true, Bool.false_eq_true, if_false, bind, Except.bind, pure,
      Except.pure] at h
    split at h
    · cases h
    · cases h
    · next entry hentry hno =>
      exact ⟨rfl, hgoal, hno, entry, hentry, (Except.ok.inj h).symm⟩

end FileTree

/-! ## Actions on a disk -/

namespace Disk

section Running

variable {α β : Type} {action : DiskAction α} {disk disk' : Disk}

theorem bind_of_ok {a : α} (h : action disk = .ok a disk') (next : α → DiskAction β) :
    (action >>= next) disk = next a disk' := by
  simp only [bind, EStateM.bind, h]

theorem bind_of_error {fault : FileFault} (h : action disk = .error fault disk')
    (next : α → DiskAction β) : (action >>= next) disk = .error fault disk' := by
  simp only [bind, EStateM.bind, h]

theorem orElse_of_ok {a : α} (h : action disk = .ok a disk') (rescue : FileFault → DiskAction α) :
    orElse action rescue disk = .ok a disk' := by
  rw [orElse, h]

theorem orElse_of_error {fault : FileFault} (h : action disk = .error fault disk')
    (rescue : FileFault → DiskAction α) : orElse action rescue disk = rescue fault disk' := by
  rw [orElse, h]

end Running

/-- A step changes the tree, or it is refused and leaves the tree as it is. -/
theorem change_cases (next : FileTree → Except FileFault FileTree) (disk : Disk) :
    (∃ disk', change next disk = .ok () disk' ∧ next disk.tree = .ok disk'.tree) ∨
      ∃ fault disk', change next disk = .error fault disk' ∧ disk'.tree = disk.tree := by
  unfold change
  split
  · exact Or.inr ⟨_, _, rfl, rfl⟩
  · cases next disk.tree with
    | ok tree' => exact Or.inl ⟨_, rfl, rfl⟩
    | error fault => exact Or.inr ⟨fault, _, rfl, rfl⟩

/-- The disk after an action, whether or not it is refused. -/
def after {α : Type} (action : DiskAction α) (disk : Disk) : Disk :=
  match action disk with
  | .ok _ disk => disk
  | .error _ disk => disk

/-- An action changes the tree only within a relation. -/
def Within {α : Type} (R : FileTree → FileTree → Prop) (action : DiskAction α) : Prop :=
  ∀ disk, R disk.tree (after action disk).tree

section Actions

variable {R : FileTree → FileTree → Prop} {α β : Type}

/-- A step changes the tree only as it does when it is not refused. -/
theorem within_change {next : FileTree → Except FileFault FileTree} (refl : ∀ tree, R tree tree)
    (changes : ∀ tree tree', next tree = .ok tree' → R tree tree') : Within R (change next) := by
  intro disk
  rw [after]
  rcases change_cases next disk with ⟨disk', hchange, hnext⟩ | ⟨fault, disk', hchange, htree⟩
  · rw [hchange]
    exact changes _ _ hnext
  · rw [hchange]
    show R disk.tree disk'.tree
    rw [htree]
    exact refl _

theorem within_pure (refl : ∀ tree, R tree tree) (a : α) : Within R (pure a) :=
  fun disk => refl disk.tree

theorem within_throw (refl : ∀ tree, R tree tree) (fault : FileFault) :
    Within R (throw fault : DiskAction α) :=
  fun disk => refl disk.tree

theorem within_isDirectory (refl : ∀ tree, R tree tree) (path : Path) :
    Within R (isDirectory path) :=
  fun disk => refl disk.tree

variable (trans : ∀ ⦃first second third⦄, R first second → R second third → R first third)

include trans

/-- One action after another. -/
theorem Within.bind {action : DiskAction α} {next : α → DiskAction β} (first : Within R action)
    (second : ∀ a, Within R (next a)) : Within R (action >>= next) := by
  intro disk
  have hfirst := first disk
  rw [after] at hfirst ⊢
  cases haction : action disk with
  | ok a disk' =>
    rw [haction] at hfirst
    rw [bind_of_ok haction]
    exact trans hfirst (second a disk')
  | error fault disk' =>
    rw [haction] at hfirst
    rw [bind_of_error haction]
    exact hfirst

/-- An action with another one for its refusal. -/
theorem Within.orElse {action : DiskAction α} {rescue : FileFault → DiskAction α}
    (first : Within R action) (second : ∀ fault, Within R (rescue fault)) :
    Within R (orElse action rescue) := by
  intro disk
  have hfirst := first disk
  rw [after] at hfirst ⊢
  cases haction : action disk with
  | ok a disk' =>
    rw [haction] at hfirst
    rw [orElse_of_ok haction]
    exact hfirst
  | error fault disk' =>
    rw [haction] at hfirst
    rw [orElse_of_error haction]
    exact trans hfirst (second fault disk')

variable (refl : ∀ tree, R tree tree)

include refl

/-- Accepting a directory that is there changes nothing. -/
theorem within_acceptDirectory (path : Path) (fault : FileFault) :
    Within R (acceptDirectory path fault) := by
  refine (within_isDirectory refl path).bind trans fun there => ?_
  cases there with
  | true => exact within_pure refl ()
  | false => exact within_throw refl fault

/-- Making the directories along some names changes the tree only as making one of them does. -/
theorem within_makeAlong (doubled : Bool) (names : List Text)
    (makes : ∀ up, up <:+ names → Within R (makeDirectory { names := up.reverse, doubled })) :
    Within R (makeAlong doubled names) := by
  induction names with
  | nil =>
    rw [makeAlong]
    refine (makes [] List.suffix_rfl).orElse trans fun fault => ?_
    cases fault with
    | missing path => exact within_throw refl _
    | _ => exact within_acceptDirectory trans refl _ _
  | cons name up ih =>
    have hfirst := makes (name :: up) List.suffix_rfl
    have hup := ih fun others hothers => makes others (hothers.trans (List.suffix_cons name up))
    rw [makeAlong]
    refine hfirst.orElse trans fun fault => ?_
    cases fault with
    | missing path =>
      refine hup.bind trans fun _ => hfirst.orElse trans fun fault => ?_
      cases fault with
      | missing path => exact within_throw refl _
      | _ => exact within_acceptDirectory trans refl _ _
    | _ => exact within_acceptDirectory trans refl _ _

/-- Making a directory and those above it changes the tree only as making one of them does. -/
theorem within_makeDirectories (path : Path)
    (makes : ∀ front, front <+: path.names →
      Within R (makeDirectory { names := front, doubled := path.doubled })) :
    Within R (makeDirectories path) := by
  refine within_makeAlong trans refl _ _ fun up hup => makes _ ?_
  have hprefix := List.reverse_prefix.2 hup
  rwa [List.reverse_reverse] at hprefix

end Actions

/-- A directory is made where nothing was. -/
theorem within_makeDirectory {R : FileTree → FileTree → Prop} (refl : ∀ tree, R tree tree)
    (path : Path) (makes : ∀ tree : FileTree, tree.find? path.plain = none →
      R tree (tree.put path.plain .directory)) : Within R (makeDirectory path) := by
  refine within_change refl fun tree tree' hmade => ?_
  obtain ⟨-, hnone, rfl⟩ := FileTree.makeDirectory_eq_ok hmade
  exact makes tree hnone

end Disk

end SchemaCodecs
