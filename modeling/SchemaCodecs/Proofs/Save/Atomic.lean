/-
# Saving is all or nothing

A text that is saved by way of a temporary file is in its file as a whole, or nothing has happened:
every file has the content that it had, and no temporary file is left.  All that can be new otherwise
are directories above the target.  This holds whichever steps are refused, and so it holds after
every step of a sequence of savings: each place holds the text that was saved there last.

* `GrownAt` : a place is as it was, or there is a new directory;
* `createTemporary_cases`, `writeAtomic_cases` : what the stages of writing do;
* `AllOrNothing` : what saving a text does;
* `saved_allOrNothing` : after every step of a sequence of savings.
-/
import SchemaCodecs.Proofs.FileTree.Growth
import SchemaCodecs.Save

namespace SchemaCodecs

open FileTree

/-! ## Growing -/

/-- A place is as it was, or there is a new directory and the place is one of the given ones. -/
def GrownAt (dirs : Path → Prop) (before after : FileTree) (place : Path) : Prop :=
  after.find? place = before.find? place ∨
    before.find? place = none ∧ after.find? place = some .directory ∧ dirs place

/-- A tree grows by directories at the given places. -/
def GrownBy (dirs : Path → Prop) (before after : FileTree) : Prop :=
  ∀ place, GrownAt dirs before after place

section Growing

variable {dirs : Path → Prop}

theorem GrownBy.refl (tree : FileTree) : GrownBy dirs tree tree :=
  fun _ => Or.inl rfl

/-- What grows at a place twice has grown there. -/
theorem GrownAt.trans {first second third : FileTree} {place : Path}
    (h : GrownAt dirs first second place) (hnext : GrownAt dirs second third place) :
    GrownAt dirs first third place := by
  rcases h with hsame | ⟨hnone, hdirectory, hdirs⟩
  · rw [GrownAt, ← hsame]
    exact hnext
  · rcases hnext with hsame | ⟨hgone, -⟩
    · exact Or.inr ⟨hnone, hsame.trans hdirectory, hdirs⟩
    · rw [hdirectory] at hgone
      cases hgone

theorem GrownBy.trans ⦃first second third : FileTree⦄ (h : GrownBy dirs first second)
    (hnext : GrownBy dirs second third) : GrownBy dirs first third :=
  fun place => (h place).trans (hnext place)

theorem GrownAt.mono {others : Path → Prop} {before after : FileTree} {place : Path}
    (h : GrownAt dirs before after place) (hsub : dirs place → others place) :
    GrownAt others before after place :=
  h.imp_right fun ⟨hnone, hdirectory, hdirs⟩ => ⟨hnone, hdirectory, hsub hdirs⟩

end Growing

/-- The places of the directories that the path to a target names. -/
def Above (target place : Path) : Prop :=
  ∃ front, front <+: target.parent.names ∧ place = ({ names := front } : Path).plain

/-- Making the directory of a target makes directories above the target. -/
theorem grownBy_makeDirectories (target : Path) :
    Disk.Within (GrownBy (Above target)) (Disk.makeDirectories target.parent) := by
  refine Disk.within_makeDirectories GrownBy.trans GrownBy.refl _ fun front hfront => ?_
  refine Disk.within_makeDirectory GrownBy.refl _ fun tree hnone place => ?_
  by_cases hplace : place = ({ names := front, doubled := target.parent.doubled } : Path).plain
  · subst hplace
    exact Or.inr ⟨hnone, find?_put_self tree (ne_root_of_none hnone) _, front, hfront, rfl⟩
  · exact Or.inl (find?_put_of_ne tree hplace _)

/-- The directory of a target is made, or this is refused; in both cases at most directories above the
target are new. -/
theorem makeDirectories_cases (target : Path) (disk : Disk) :
    (∃ made, Disk.makeDirectories target.parent disk = .ok () made ∧
      GrownBy (Above target) disk.tree made.tree) ∨
    ∃ fault made, Disk.makeDirectories target.parent disk = .error fault made ∧
      GrownBy (Above target) disk.tree made.tree := by
  have hgrown := grownBy_makeDirectories target disk
  rw [Disk.after] at hgrown
  cases hmake : Disk.makeDirectories target.parent disk with
  | ok _ made =>
    rw [hmake] at hgrown
    exact Or.inl ⟨made, rfl, hgrown⟩
  | error fault made =>
    rw [hmake] at hgrown
    exact Or.inr ⟨fault, made, rfl, hgrown⟩

/-! ## The temporary file -/

/-- The name of a temporary file. -/
def temporaryName (target : Path) (token : Text) : Text :=
  "." ++ target.name ++ "." ++ token ++ ".tmp"

theorem length_lt_temporaryName (target : Path) (token : Text) :
    target.name.length + 6 ≤ (temporaryName target token).length := by
  have hdot : Text.length "." = 1 := by decide
  have hend : Text.length ".tmp" = 4 := by decide
  simp only [temporaryName, Text.length_append, hdot, hend]
  omega

@[simp] theorem plain_temporaryPath (target : Path) (token : Text) :
    (temporaryPath target token).plain = target.parent.plain.child (temporaryName target token) := by
  have hname : temporaryName target token ≠ Path.above := by
    intro heq
    have hlength := length_lt_temporaryName target token
    rw [heq, show Path.above.length = 2 by decide] at hlength
    omega
  have hparent : target.parent.plain.names.foldl Path.step Path.root = target.parent.plain :=
    Path.plain_of_isPlain (Path.isPlain_plain target.parent)
  show (target.parent.plain.names ++ [temporaryName target token]).foldl Path.step Path.root = _
  rw [List.foldl_append, hparent, List.foldl_cons, List.foldl_nil, Path.step, if_neg hname]

/-- A path that ends in a name leads into the directory above it. -/
theorem plain_of_endsInName {target : Path} (h : endsInName target = true) :
    target.plain = target.parent.plain.child target.name := by
  obtain ⟨names, doubled⟩ := target
  rcases List.eq_nil_or_concat names with rfl | ⟨front, last, rfl⟩
  · cases h
  · rw [List.concat_eq_append] at h ⊢
    have hlast : last ≠ Path.above := by simpa [endsInName] using h
    have hparent : ({ names := front ++ [last], doubled } : Path).parent.plain
        = front.foldl Path.step Path.root := by
      simp [Path.plain, Path.parent]
    rw [hparent]
    simp [Path.plain, Path.name, Path.step, hlast]

/-- The temporary file does not stand at the place of the target. -/
theorem plain_temporaryPath_ne {target : Path} (h : endsInName target = true) (token : Text) :
    (temporaryPath target token).plain ≠ target.plain := by
  rw [plain_temporaryPath, plain_of_endsInName h]
  intro heq
  have hnames := congrArg Path.names heq
  have hlast : temporaryName target token = target.name := by
    simpa [Path.child] using hnames
  have hlength := length_lt_temporaryName target token
  rw [hlast] at hlength
  omega

/-! ## Writing by way of a temporary file -/

/-- A temporary file is made where nothing was, or the tree stays as it is. -/
theorem createTemporary_cases (target : Path) (tokens : List Text) (disk : Disk) :
    (∃ token disk', createTemporary target tokens disk = .ok (temporaryPath target token) disk' ∧
      disk.tree.create (temporaryPath target token) = .ok disk'.tree) ∨
      ∃ fault disk', createTemporary target tokens disk = .error fault disk' ∧
        disk'.tree = disk.tree := by
  induction tokens generalizing disk with
  | nil => exact Or.inr ⟨_, disk, rfl, rfl⟩
  | cons token rest ih =>
    rcases Disk.change_cases (fun tree => tree.create (temporaryPath target token)) disk with
      ⟨disk', hcreate, hnext⟩ | ⟨fault, disk', hcreate, htree⟩
    · have hmade : (do Disk.create (temporaryPath target token); return temporaryPath target token :
          DiskAction Path) disk = .ok (temporaryPath target token) disk' :=
        Disk.bind_of_ok hcreate _
      refine Or.inl ⟨token, disk', ?_, hnext⟩
      rw [createTemporary, Disk.orElse_of_ok hmade]
    · have hrefused : (do Disk.create (temporaryPath target token); return temporaryPath target token :
          DiskAction Path) disk = .error fault disk' :=
        Disk.bind_of_error hcreate _
      rw [createTemporary, Disk.orElse_of_error hrefused]
      cases fault with
      | occupied path =>
        rw [← htree]
        exact ih disk'
      | _ => exact Or.inr ⟨_, disk', rfl, htree⟩

/-- Two trees that differ at one place at most. -/
def SameBut (place : Path) (before after : FileTree) : Prop :=
  ∀ other, other ≠ place → after.find? other = before.find? other

/-- Taking away the only entry that is new leaves the tree as it was. -/
theorem SameBut.erase {place : Path} {before after : FileTree} (h : SameBut place before after)
    (hnone : before.find? place = none) (other : Path) :
    (after.erase place).find? other = before.find? other := by
  by_cases hother : other = place
  · subst hother
    rw [find?_erase_self after (ne_root_of_none hnone), hnone]
  · rw [find?_erase_of_ne after hother, h other hother]

/-- Taking a new file away again leaves the tree as it was. -/
theorem remove_eq {disk : Disk} {before : FileTree} {path : Path}
    (h : SameBut path.plain before disk.tree) (hplace : before.locate path = .ok path.plain)
    (hnone : before.find? path.plain = none) :
    ∃ disk', Disk.remove path disk = .ok () disk' ∧
      ∀ place, disk'.tree.find? place = before.find? place := by
  have stay : ∀ place, before.find? place = some .directory →
      disk.tree.find? place = some .directory := by
    intro place hdirectory
    rw [h place, hdirectory]
    rintro rfl
    rw [hnone] at hdirectory
    cases hdirectory
  refine ⟨{ disk with tree := disk.tree.erase path.plain }, ?_, h.erase hnone⟩
  rw [Disk.remove, locate_mono stay hplace]

/-- A file that is moved onto a target takes its place, and leaves its own. -/
theorem find?_of_move {tree moved : FileTree} {source target : Path} {entry : Entry}
    (hmove : tree.move source target = .ok moved)
    (hentry : tree.find? source.plain = some entry) (hfile : entry ≠ .directory)
    (hne : source.plain ≠ target.plain) :
    moved.locate target = .ok target.plain ∧ moved.find? target.plain = some entry ∧
      moved.find? source.plain = none ∧
        ∀ other, other ≠ source.plain → other ≠ target.plain →
          moved.find? other = tree.find? other := by
  obtain ⟨-, hgoal, hno, entry', hentry', rfl⟩ := move_eq_ok hmove
  obtain rfl := Option.some.inj (hentry.symm.trans hentry')
  have hsource : source.plain ≠ Path.root := ne_root_of_find? (by rw [hentry]; simpa using hfile)
  have hothers : ∀ other, other ≠ source.plain → other ≠ target.plain →
      ((tree.erase source.plain).put target.plain entry).find? other = tree.find? other := by
    intro other hother hother'
    rw [find?_put_of_ne _ hother', find?_erase_of_ne _ hother]
  refine ⟨locate_mono (fun place hdirectory => ?_) hgoal,
    find?_put_self _ (ne_root_of_find? hno) _, ?_, hothers⟩
  · -- Neither place is that of a directory on the way.
    rw [hothers place _ _, hdirectory]
    · rintro rfl
      rw [hentry] at hdirectory
      exact hfile (Option.some.inj hdirectory)
    · rintro rfl
      exact hno hdirectory
  · rw [find?_put_of_ne _ hne, find?_erase_self _ hsource]

theorem SameBut.put {place : Path} {before after : FileTree} (h : SameBut place before after)
    (entry : Entry) : SameBut place before (after.put place entry) :=
  fun other hother => (find?_put_of_ne after hother entry).trans (h other hother)

/-- A temporary file is filled and moved onto the target, or at most its place has changed. -/
theorem fill_and_move_cases {temporary target : Path} {before : FileTree} {disk : Disk}
    (same : SameBut temporary.plain before disk.tree)
    (hnone : before.find? temporary.plain = none)
    (hne : endsInName target = true → temporary.plain ≠ target.plain) (bytes : List UInt8) :
    (∃ disk', (do Disk.write temporary bytes; Disk.move temporary target : DiskAction Unit)
        disk = .ok () disk' ∧
      disk'.tree.read target = .ok bytes ∧ SameBut target.plain before disk'.tree) ∨
      ∃ fault disk', (do Disk.write temporary bytes; Disk.move temporary target :
        DiskAction Unit) disk = .error fault disk' ∧ SameBut temporary.plain before disk'.tree := by
  rcases Disk.change_cases (fun tree => tree.write temporary bytes) disk with
    ⟨filled, hwrite, hnext⟩ | ⟨fault, failed, hwrite, htree⟩
  · change Disk.write temporary bytes disk = _ at hwrite
    rw [Disk.bind_of_ok hwrite]
    obtain ⟨-, hno, hfilled⟩ := write_eq_ok hnext
    have sameFilled : SameBut temporary.plain before filled.tree := hfilled ▸ same.put _
    have hentry : filled.tree.find? temporary.plain = some (.file bytes) := by
      rw [hfilled]
      exact find?_put_self _ (ne_root_of_find? hno) _
    rcases Disk.change_cases (fun tree => tree.move temporary target) filled with
      ⟨moved, hmove, hnext⟩ | ⟨fault, failed, hmove, htree⟩
    · refine Or.inl ⟨moved, hmove, ?_⟩
      have hdiffer := hne (move_eq_ok hnext).1
      obtain ⟨hplace, hgoal, hgone, hothers⟩ := find?_of_move hnext hentry (by simp) hdiffer
      refine ⟨(read_eq_ok_iff _ _ _).2 ⟨_, hplace, hgoal⟩, fun other hother => ?_⟩
      by_cases htemporary : other = temporary.plain
      · rw [htemporary, hgone, hnone]
      · rw [hothers other htemporary hother, sameFilled other htemporary]
    · exact Or.inr ⟨fault, failed, hmove, htree ▸ sameFilled⟩
  · change Disk.write temporary bytes disk = _ at hwrite
    rw [Disk.bind_of_error hwrite]
    exact Or.inr ⟨fault, failed, rfl, htree ▸ same⟩

/-- **Writing by way of a temporary file** puts the whole content in the target and changes nothing
else, or it is refused and changes nothing. -/
theorem writeAtomic_cases (tokens : List Text) (target : Path) (bytes : List UInt8) (disk : Disk) :
    (∃ disk', writeAtomic tokens target bytes disk = .ok () disk' ∧
      disk'.tree.read target = .ok bytes ∧
        SameBut target.plain disk.tree disk'.tree) ∨
      ∃ fault disk', writeAtomic tokens target bytes disk = .error fault disk' ∧
        ∀ place, disk'.tree.find? place = disk.tree.find? place := by
  rcases createTemporary_cases target tokens disk with
    ⟨token, first, hcreate, hcreated⟩ | ⟨fault, first, hcreate, htree⟩
  · obtain ⟨hplace, hnone, hfirst⟩ := create_eq_ok hcreated
    have same : SameBut (temporaryPath target token).plain disk.tree first.tree := by
      rw [hfirst]
      exact SameBut.put (fun _ _ => rfl) _
    rcases fill_and_move_cases same hnone (fun hname => plain_temporaryPath_ne hname token) bytes with
      ⟨moved, hmove, hread, hothers⟩ | ⟨fault, failed, hmove, same⟩
    · refine Or.inl ⟨moved, ?_, hread, hothers⟩
      rw [writeAtomic, Disk.bind_of_ok hcreate, Disk.orElse_of_ok hmove]
    · obtain ⟨disk', hremove, hsame⟩ := remove_eq same hplace hnone
      refine Or.inr ⟨fault, disk', ?_, hsame⟩
      rw [writeAtomic, Disk.bind_of_ok hcreate, Disk.orElse_of_error hmove,
        Disk.bind_of_ok hremove]
      rfl
  · refine Or.inr ⟨fault, first, ?_, fun place => by rw [htree]⟩
    rw [writeAtomic, Disk.bind_of_error hcreate]

/-- A temporary file that is taken away at once leaves nothing behind. -/
theorem find?_abandon (tokens : List Text) (target : Path) (disk : Disk) (place : Path) :
    (Disk.after (abandon true tokens target) disk).tree.find? place = disk.tree.find? place := by
  rw [Disk.after, abandon, if_pos rfl]
  rcases createTemporary_cases target tokens disk with
    ⟨token, first, hcreate, hcreated⟩ | ⟨fault, first, hcreate, htree⟩
  · obtain ⟨hplace, hnone, hfirst⟩ := create_eq_ok hcreated
    have same : SameBut (temporaryPath target token).plain disk.tree first.tree := by
      rw [hfirst]
      exact SameBut.put (fun _ _ => rfl) _
    obtain ⟨disk', hremove, hsame⟩ := remove_eq same hplace hnone
    rw [Disk.bind_of_ok hcreate, hremove]
    exact hsame place
  · rw [Disk.bind_of_error hcreate]
    show first.tree.find? place = _
    rw [htree]

/-! ## Saving -/

/-- What saving a text comes to: nothing happens to what is there, and at most directories above the
target are new; or the target holds the text, and at most directories above it are new otherwise. -/
inductive AllOrNothing (target : Path) (text : Text) (before after : FileTree) :
    Except Fault Unit → Prop where
  /-- Saving fails. -/
  | nothing {fault : Fault} (grown : GrownBy (Above target) before after) :
    AllOrNothing target text before after (.error fault)
  /-- The text is saved. -/
  | all {bytes : List UInt8} (encoded : text.encodeUtf8? = some bytes)
      (holds : after.read target = .ok bytes)
      (others : ∀ place, place ≠ target.plain → GrownAt (Above target) before after place) :
    AllOrNothing target text before after (.ok ())

/-- Writing a file puts the whole content in the target, or it is refused; otherwise at most
directories above the target are new. -/
theorem writeFile_cases (tokens : List Text) (target : Path) (bytes : List UInt8) (disk : Disk) :
    (∃ disk', writeFile true tokens target (some bytes) disk = .ok () disk' ∧
      disk'.tree.read target = .ok bytes ∧
        ∀ place, place ≠ target.plain → GrownAt (Above target) disk.tree disk'.tree place) ∨
      ∃ fault disk', writeFile true tokens target (some bytes) disk = .error fault disk' ∧
        GrownBy (Above target) disk.tree disk'.tree := by
  rcases makeDirectories_cases target disk with ⟨made, hmake, hgrown⟩ | ⟨fault, made, hmake, hgrown⟩
  · rw [writeFile, Disk.bind_of_ok hmake, if_pos rfl]
    rcases writeAtomic_cases tokens target bytes made with
      ⟨disk', hwrite, hread, hothers⟩ | ⟨fault, disk', hwrite, hsame⟩
    · refine Or.inl ⟨disk', hwrite, hread, fun place hplace => ?_⟩
      rw [GrownAt, hothers place hplace]
      exact hgrown place
    · refine Or.inr ⟨fault, disk', hwrite, fun place => ?_⟩
      rw [GrownAt, hsame place]
      exact hgrown place
  · exact Or.inr ⟨fault, made, by rw [writeFile, Disk.bind_of_error hmake], hgrown⟩

/-- Where there is nothing to write, at most directories above the target are new. -/
theorem grownBy_writeFile_none (tokens : List Text) (target : Path) :
    Disk.Within (GrownBy (Above target)) (writeFile true tokens target none) := by
  apply (grownBy_makeDirectories target).bind GrownBy.trans
  intro _ disk place
  exact Or.inl (find?_abandon tokens target disk place)

section Saving

variable {config : OutputConfig} {tokens : List Text} {target : Path} {text : Text} {disk : Disk}

/-- Nothing is saved under a name that no file has. -/
theorem save_of_misnamed {cause : NameFault} (misnamed : NameFault.of? target.text = some cause) :
    ∃ fault disk', save config tokens target text disk = (disk', .error fault) ∧
      GrownBy (Above target) disk.tree disk'.tree := by
  unfold save
  cases guardTarget config disk.tree target with
  | error fault => exact ⟨fault, disk, rfl, GrownBy.refl _⟩
  | ok _ =>
    cases NameFault.of? target.parent.text with
    | some cause => exact ⟨cause.fault, disk, rfl, GrownBy.refl _⟩
    | none =>
      simp only [saving, misnamed]
      rcases makeDirectories_cases target disk with
        ⟨made, hmake, hgrown⟩ | ⟨fault, made, hmake, hgrown⟩
      · rw [Disk.bind_of_ok hmake]
        exact ⟨_, made, rfl, hgrown⟩
      · rw [Disk.bind_of_error hmake]
        exact ⟨_, made, rfl, hgrown⟩

/-- **Saving is all or nothing**, whichever steps are refused. -/
theorem save_allOrNothing (atomic : config.atomicWrite.isTruthy = true) :
    AllOrNothing target text disk.tree (save config tokens target text disk).1.tree
      (save config tokens target text disk).2 := by
  cases hname : NameFault.of? target.text with
  | some cause =>
    obtain ⟨fault, disk', hsave, hgrown⟩ := save_of_misnamed hname
    rw [hsave]
    exact .nothing hgrown
  | none =>
    unfold save
    cases guardTarget config disk.tree target with
    | error fault => exact .nothing (GrownBy.refl _)
    | ok _ =>
      cases NameFault.of? target.parent.text with
      | some cause => exact .nothing (GrownBy.refl _)
      | none =>
        simp only [saving, hname, atomic]
        cases hbytes : text.encodeUtf8? with
        | none =>
          -- The text has no encoding, which is noticed when the temporary file is there.
          have hgrown := grownBy_writeFile_none tokens target disk
          rw [Disk.after] at hgrown
          cases hwrite : writeFile true tokens target none disk with
          | ok _ disk' =>
            rw [hwrite] at hgrown
            rw [Disk.bind_of_ok hwrite]
            exact .nothing hgrown
          | error fault disk' =>
            rw [hwrite] at hgrown
            rw [Disk.bind_of_error hwrite]
            exact .nothing hgrown
        | some bytes =>
          rcases writeFile_cases tokens target bytes disk with
            ⟨disk', hwrite, hread, hothers⟩ | ⟨fault, disk', hwrite, hgrown⟩
          · rw [Disk.bind_of_ok hwrite]
            exact .all hbytes hread hothers
          · rw [Disk.bind_of_error hwrite]
            exact .nothing hgrown

theorem GrownBy.find?_eq {dirs : Path → Prop} {before after : FileTree}
    (h : GrownBy dirs before after) (there : ∀ place, dirs place → before.find? place ≠ none)
    (place : Path) : after.find? place = before.find? place := by
  rcases h place with hsame | ⟨hnone, -, hdirs⟩
  · exact hsame
  · exact absurd hnone (there place hdirs)

/-- The directories above a target that is there are there. -/
theorem find?_of_above {tree : FileTree} {target place : Path} (h : tree.contains target = true)
    (above : Above target place) : tree.find? place = some .directory := by
  obtain ⟨front, hfront, rfl⟩ := above
  unfold contains lookup at h
  cases hlocate : tree.locate target with
  | error fault => simp [hlocate, bind, Except.bind] at h
  | ok found => exact find?_of_locate hlocate hfront

/-- **A file that is protected** is not replaced, and nothing else happens. -/
theorem save_of_protects (protects : config.mode.protects = true)
    (there : disk.tree.contains target = true) :
    ∃ fault disk', save config tokens target text disk = (disk', .error fault) ∧
      ∀ place, disk'.tree.find? place = disk.tree.find? place := by
  cases hname : NameFault.of? target.text with
  | some cause =>
    obtain ⟨fault, disk', hsave, hgrown⟩ := save_of_misnamed hname
    refine ⟨fault, disk', hsave, hgrown.find?_eq fun place above => ?_⟩
    rw [find?_of_above there above]
    exact Option.some_ne_none _
  | none =>
    have hguard : guardTarget config disk.tree target = .error (.write (.exists target.text)) := by
      unfold contains at there
      rw [guardTarget, protects, hname]
      cases hlookup : disk.tree.lookup target with
      | ok entry => simp
      | error fault => simp [hlookup] at there
    exact ⟨.write (.exists target.text), disk, by rw [save, hguard], fun _ => rfl⟩

end Saving

/-! ## Sequences of savings -/

/-- A text to save. -/
structure SaveRequest where
  /-- The settings. -/
  config : OutputConfig
  /-- The tokens for the temporary file. -/
  tokens : List Text
  /-- The file to save the text in. -/
  target : Path
  /-- The text. -/
  text : Text

/-- What has come of saving a text. -/
structure SaveStep where
  /-- What was to be saved. -/
  request : SaveRequest
  /-- The tree before. -/
  before : FileTree
  /-- The outcome. -/
  outcome : Except Fault Unit
  /-- The tree afterwards. -/
  after : FileTree

/-- The disk after a text has been saved, and the outcome. -/
def SaveRequest.run (request : SaveRequest) (disk : Disk) : Disk × Except Fault Unit :=
  save request.config request.tokens request.target request.text disk

/-- The disk after texts have been saved one after the other. -/
def saveAll (disk : Disk) (requests : List SaveRequest) : Disk :=
  requests.foldl (fun disk request => (request.run disk).1) disk

/-- What comes of saving texts one after the other. -/
def saveSteps : Disk → List SaveRequest → List SaveStep
  | _, [] => []
  | disk, request :: rest =>
    let (next, outcome) := request.run disk
    ⟨request, disk.tree, outcome, next.tree⟩ :: saveSteps next rest

/-- The text that a step has saved at a place. -/
def SaveStep.savedAt? (step : SaveStep) (place : Path) : Option Text :=
  match step.outcome with
  | .ok _ => if step.request.target.plain = place then some step.request.text else none
  | .error _ => none

/-- The text that was saved last at a place. -/
def lastSavedAt? (place : Path) : List SaveStep → Option Text
  | [] => none
  | step :: rest => (lastSavedAt? place rest).or (step.savedAt? place)

/-- A step that is all or nothing, and nothing where the target is protected. -/
structure SaveStep.Sound (step : SaveStep) : Prop where
  /-- It is all or nothing. -/
  allOrNothing : AllOrNothing step.request.target step.request.text step.before step.after step.outcome
  /-- A protected target leaves everything as it was. -/
  protects : step.request.config.mode.protects = true →
    step.before.contains step.request.target = true →
      (∃ fault, step.outcome = .error fault) ∧
        ∀ place, step.after.find? place = step.before.find? place

/-- One saving is a sound step. -/
theorem SaveRequest.sound {request : SaveRequest}
    (atomic : request.config.atomicWrite.isTruthy = true) (disk : Disk) :
    (SaveStep.mk request disk.tree (request.run disk).2 (request.run disk).1.tree).Sound where
  allOrNothing := save_allOrNothing atomic
  protects := by
    intro protects there
    have hsave := @save_of_protects _ request.tokens _ request.text _ protects there
    obtain ⟨fault, disk', hsave, hsame⟩ := hsave
    rw [SaveRequest.run, hsave]
    exact ⟨⟨fault, rfl⟩, hsame⟩

/-- A file with the encoding of a text stands at a place. -/
def HoldsText (tree : FileTree) (place : Path) (text : Text) : Prop :=
  ∃ bytes, text.encodeUtf8? = some bytes ∧ tree.find? place = some (.file bytes)

/-- A place holds a text that was saved there; where none was saved, it has grown. -/
def HoldsLast (saved : Option Text) (dirs : Path → Prop) (before after : FileTree)
    (place : Path) : Prop :=
  match saved with
  | some text => HoldsText after place text
  | none => GrownAt dirs before after place

/-- What a place holds in the end is what was saved there last. -/
theorem HoldsLast.trans {saved later : Option Text} {dirs : Path → Prop}
    {first second third : FileTree} {place : Path} (h : HoldsLast saved dirs first second place)
    (hnext : HoldsLast later dirs second third place) :
    HoldsLast (later.or saved) dirs first third place := by
  cases later with
  | some text => exact hnext
  | none =>
    cases saved with
    | none => exact GrownAt.trans h hnext
    | some text =>
      obtain ⟨bytes, hbytes, hfile⟩ := h
      -- What was saved first is not replaced by a directory.
      rcases hnext with hsame | ⟨hnone, -⟩
      · exact ⟨bytes, hbytes, hsame.trans hfile⟩
      · cases hfile.symm.trans hnone

/-- A place that holds the last text among some directories does so among more. -/
theorem HoldsLast.mono {saved : Option Text} {dirs others : Path → Prop} {before after : FileTree}
    {place : Path} (h : HoldsLast saved dirs before after place)
    (hsub : dirs place → others place) : HoldsLast saved others before after place := by
  cases saved with
  | some text => exact h
  | none => exact GrownAt.mono h hsub

theorem find?_plain_of_read {tree : FileTree} {path : Path} {bytes : List UInt8}
    (h : tree.read path = .ok bytes) : tree.find? path.plain = some (.file bytes) := by
  obtain ⟨found, hfound, hfile⟩ := (read_eq_ok_iff _ _ _).1 h
  obtain rfl := locate_eq_plain hfound
  exact hfile

/-- After a sound step a place holds the text that was saved there, or it has grown. -/
theorem SaveStep.Sound.holdsLast {step : SaveStep} (h : step.Sound) (place : Path) :
    HoldsLast (step.savedAt? place) (Above step.request.target) step.before step.after place := by
  obtain ⟨⟨config, tokens, target, text⟩, before, outcome, after⟩ := step
  cases h.allOrNothing with
  | nothing grown => exact grown place
  | all encoded holds others =>
    rw [SaveStep.savedAt?]
    by_cases hplace : target.plain = place
    · subst hplace
      rw [if_pos rfl]
      exact ⟨_, encoded, find?_plain_of_read holds⟩
    · rw [if_neg hplace]
      exact others place (Ne.symm hplace)

section Sequences

variable {requests : List SaveRequest}

/-- Each step of a sequence of savings is sound. -/
theorem sound_of_mem_saveSteps
    (atomic : ∀ request ∈ requests, request.config.atomicWrite.isTruthy = true) {disk : Disk}
    {step : SaveStep} (hstep : step ∈ saveSteps disk requests) : step.Sound := by
  induction requests generalizing disk with
  | nil => cases hstep
  | cons request rest ih =>
    obtain ⟨hrequest, hrest⟩ := List.forall_mem_cons.1 atomic
    rcases List.mem_cons.1 hstep with rfl | hstep
    · exact SaveRequest.sound hrequest disk
    · exact ih hrest hstep

/-- After a sequence of savings each place holds the text that was saved there last, or it has
grown. -/
theorem holdsLast_saveAll
    (atomic : ∀ request ∈ requests, request.config.atomicWrite.isTruthy = true) (disk : Disk)
    (place : Path) :
    HoldsLast (lastSavedAt? place (saveSteps disk requests))
      (fun dir => ∃ request ∈ requests, Above request.target dir) disk.tree
      (saveAll disk requests).tree place := by
  induction requests generalizing disk with
  | nil => exact Or.inl rfl
  | cons request rest ih =>
    obtain ⟨hrequest, hrest⟩ := List.forall_mem_cons.1 atomic
    have hfirst := (SaveRequest.sound hrequest disk).holdsLast place
    have hlater := ih hrest (request.run disk).1
    exact (hfirst.mono fun above => ⟨request, List.mem_cons_self, above⟩).trans
      (hlater.mono fun ⟨other, hother, above⟩ => ⟨other, List.mem_cons_of_mem _ hother, above⟩)

/-- **Savings are all or nothing.**  Whichever steps on the disk are refused, every step of a sequence
of savings by way of temporary files is all or nothing, and afterwards each place holds the text that
was saved there last; where none was saved, it is as it was, or a directory above a target is new. -/
theorem saved_allOrNothing (disk : Disk) (requests : List SaveRequest)
    (atomic : ∀ request ∈ requests, request.config.atomicWrite.isTruthy = true) :
    (∀ step ∈ saveSteps disk requests, step.Sound) ∧
      ∀ place, HoldsLast (lastSavedAt? place (saveSteps disk requests))
        (fun dir => ∃ request ∈ requests, Above request.target dir) disk.tree
        (saveAll disk requests).tree place :=
  ⟨fun _ => sound_of_mem_saveSteps atomic, holdsLast_saveAll atomic disk⟩

end Sequences

/-! ## Two savings, of which the first is refused -/

namespace SecondAttempt

/-- The working directory. -/
def directory : Path := { names := ["w"] }

/-- The file to save in, in a directory that is not there. -/
def target : Path := { names := ["w", "out", "b"] }

/-- A disk that refuses its fourth step, which moves the temporary file. -/
def disk : Disk where
  tree := ⟨[(directory, .directory)]⟩
  outages := [none, none, none, some (.occupied "w")]

/-- The texts to save. -/
def requests : List SaveRequest := [⟨{}, ["x"], target, "1"⟩, ⟨{}, ["x"], target, "2"⟩]

theorem lastSavedAt?_target : lastSavedAt? target (saveSteps disk requests) = some ("2" : Text) := by
  decide +kernel

/-- Both savings are all or nothing, and the target holds the second text in the end. -/
theorem saved_allOrNothing_second :
    (∀ request ∈ requests, request.config.atomicWrite.isTruthy = true) ∧
      (saveSteps disk requests).map (·.outcome.isOk) = [false, true] ∧
        (∀ step ∈ saveSteps disk requests, step.Sound) ∧
          (saveAll disk requests).tree.find? target = some (.file [0x32]) := by
  have atomic : ∀ request ∈ requests, request.config.atomicWrite.isTruthy = true := by decide
  obtain ⟨sound, holds⟩ := saved_allOrNothing disk requests atomic
  have htarget := holds target
  rw [lastSavedAt?_target] at htarget
  obtain ⟨bytes, hbytes, hfile⟩ := htarget
  have hdigit : Text.encodeUtf8? "2" = some [0x32] := by decide
  obtain rfl := Option.some.inj (hdigit.symm.trans hbytes)
  exact ⟨atomic, by decide +kernel, sound, hfile⟩

end SecondAttempt

end SchemaCodecs
