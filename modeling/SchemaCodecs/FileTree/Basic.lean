/-
# File trees

Directories and files by path.  A path is followed name by name from the root, and every name but
the last has to be that of a directory.  Names and paths must not be too long.  There are no symbolic
links, and different texts are different names: that lone surrogates can spell the bytes of a character
is left out.
-/
import SchemaCodecs.Fault
import SchemaCodecs.FileTree.Path
import SchemaCodecs.Traced

namespace SchemaCodecs

/-! ## The types -/

/-- What stands at a place of the tree. -/
inductive Entry where
  /-- A directory. -/
  | directory
  /-- A file with its content. -/
  | file (bytes : List UInt8)
  deriving DecidableEq, Inhabited

/-- The entries of a file tree, each with the plain path to it; the root needs no entry. -/
structure FileTree where
  /-- The entries. -/
  entries : List (Path × Entry)
  deriving Inhabited

namespace FileTree

/-! ## Places -/

/-- The tree with nothing but the root. -/
def empty : FileTree := ⟨[]⟩

/-- What stands at a place. -/
def find? (tree : FileTree) (place : Path) : Option Entry :=
  if place = Path.root then some .directory
  else (tree.entries.find? fun entry => entry.1 = place).map (·.2)

/-- The tree with an entry at a place, in place of what was there. -/
def put (tree : FileTree) (place : Path) (entry : Entry) : FileTree :=
  ⟨(place, entry) :: tree.entries.filter fun other => other.1 ≠ place⟩

/-- The tree with nothing at a place. -/
def erase (tree : FileTree) (place : Path) : FileTree :=
  ⟨tree.entries.filter fun other => other.1 ≠ place⟩

/-! ## Following a path -/

/-- Why a path cannot be followed. -/
inductive Obstacle where
  /-- There is nothing under one of the names. -/
  | missing
  /-- One of the names is that of a file. -/
  | notDirectory
  /-- One of the names is too long. -/
  | tooLong
  deriving DecidableEq, Inhabited

/-- The refusal of an operation on a path that cannot be followed. -/
def Obstacle.fault (path : Path) : Obstacle → FileFault
  | missing => .missing path.text
  | notDirectory => .notDirectory path.text
  | tooLong => .tooLong path.text

/-- The largest number of bytes in a name. -/
def nameLimit : Nat := 255

/-- The largest number of bytes in the text of a path. -/
def pathLimit : Nat := 4095

/-- Whether a text takes more bytes than it may. -/
def exceeds (limit : Nat) (text : Text) : Bool := limit < text.byteCount

/-- The directory that is reached from a directory along some names. -/
def enter (tree : FileTree) (here : Path) : List Text → Except Obstacle Path
  | [] => .ok here
  | name :: rest =>
    if exceeds nameLimit name then .error .tooLong
    else
      match tree.find? (here.step name) with
      | none => .error .missing
      | some (.file _) => .error .notDirectory
      | some .directory => enter tree (here.step name) rest

/-- The place in a directory that a name means. -/
def placeIn (directory : Path) (name : Text) : Except Obstacle Path :=
  if exceeds nameLimit name then .error .tooLong else .ok (directory.step name)

/-- The place that some names lead to from the root, whether or not something is there. -/
def follow (tree : FileTree) (names : List Text) : Except Obstacle Path :=
  match names.getLast? with
  | none => .ok Path.root
  | some last => do placeIn (← enter tree Path.root names.dropLast) last

/-- The place that a path leads to, whether or not something is there. -/
def locate (tree : FileTree) (path : Path) : Except FileFault Path :=
  if exceeds pathLimit path.text then .error (.tooLong path.text)
  else
    match tree.follow path.names with
    | .ok place => .ok place
    | .error obstacle => .error (obstacle.fault path)

/-- The directory that names lead to. -/
theorem enter_eq_foldl {tree : FileTree} {here directory : Path} {names : List Text}
    (h : tree.enter here names = .ok directory) : directory = names.foldl Path.step here := by
  induction names generalizing here with
  | nil => exact (Except.ok.inj h).symm
  | cons name rest ih =>
    rw [enter] at h
    split at h
    · cases h
    · split at h
      · cases h
      · cases h
      · exact ih h

/-- Following names: all but the last one are entered, and the last one names the place. -/
theorem follow_eq_ok_iff (tree : FileTree) (names : List Text) (place : Path) :
    tree.follow names = .ok place ↔
      names = [] ∧ place = Path.root ∨
        ∃ front last directory, names = front ++ [last] ∧
          tree.enter Path.root front = .ok directory ∧ placeIn directory last = .ok place := by
  rcases List.eq_nil_or_concat names with rfl | ⟨front, last, rfl⟩
  · rw [follow, List.getLast?_nil]
    constructor
    · rintro ⟨⟩
      exact Or.inl ⟨rfl, rfl⟩
    · rintro (⟨-, rfl⟩ | ⟨front, last, directory, hnil, -⟩)
      · rfl
      · simp at hnil
  · rw [List.concat_eq_append, follow, List.getLast?_concat]
    simp only [List.dropLast_concat, bind_eq_ok_iff]
    constructor
    · rintro ⟨directory, henter, hplace⟩
      exact Or.inr ⟨front, last, directory, rfl, henter, hplace⟩
    · rintro (⟨hnil, -⟩ | ⟨front', last', directory, heq, henter, hplace⟩)
      · simp at hnil
      · obtain ⟨rfl, hlast⟩ := List.append_inj' heq rfl
        obtain rfl := List.singleton_inj.1 hlast
        exact ⟨directory, henter, hplace⟩

/-- A path that is not too long leads where its names lead. -/
theorem locate_eq_ok_iff (tree : FileTree) (path place : Path) :
    tree.locate path = .ok place ↔
      exceeds pathLimit path.text = false ∧ tree.follow path.names = .ok place := by
  rw [locate]
  cases exceeds pathLimit path.text with
  | true => simp
  | false => cases tree.follow path.names <;> simp

/-- The place of a name in a directory is one step from it. -/
theorem eq_step_of_placeIn {directory place : Path} {name : Text}
    (h : placeIn directory name = .ok place) : place = directory.step name := by
  unfold placeIn at h
  split at h
  · cases h
  · exact (Except.ok.inj h).symm

/-- A path leads to the place that its plain form names. -/
theorem locate_eq_plain {tree : FileTree} {path place : Path} (h : tree.locate path = .ok place) :
    place = path.plain := by
  rw [Path.plain]
  rcases (follow_eq_ok_iff _ _ _).1 ((locate_eq_ok_iff _ _ _).1 h).2 with
    ⟨hnil, rfl⟩ | ⟨front, last, directory, heq, henter, hplace⟩
  · rw [hnil, List.foldl_nil]
  · rw [heq, List.foldl_append, ← enter_eq_foldl henter, eq_step_of_placeIn hplace]
    rfl

theorem locate_eq {tree : FileTree} {path place : Path} (h : tree.locate path = .ok place)
    (plain : path.IsPlain) : place = path := by
  rw [locate_eq_plain h, Path.plain_of_isPlain plain]

/-- What a path leads to. -/
def lookup (tree : FileTree) (path : Path) : Except FileFault Entry := do
  match tree.find? (← tree.locate path) with
  | some entry => return entry
  | none => throw (.missing path.text)

/-- Whether a path leads to something. -/
def contains (tree : FileTree) (path : Path) : Bool :=
  match tree.lookup path with
  | .ok _ => true
  | .error _ => false

/-- Whether a path leads to a directory. -/
def isDirectory (tree : FileTree) (path : Path) : Bool :=
  match tree.lookup path with
  | .ok .directory => true
  | _ => false

/-! ## Operations -/

/-- The content of the file at a path. -/
def read (tree : FileTree) (path : Path) : Except FileFault (List UInt8) := do
  match ← tree.lookup path with
  | .file bytes => return bytes
  | .directory => throw (.isDirectory path.text)

/-- A file is read if its path leads to it. -/
theorem read_eq_ok_iff (tree : FileTree) (path : Path) (bytes : List UInt8) :
    tree.read path = .ok bytes ↔
      ∃ place, tree.locate path = .ok place ∧ tree.find? place = some (.file bytes) := by
  unfold read lookup
  cases tree.locate path with
  | error fault => simp [bind, Except.bind]
  | ok place =>
    simp only [bind, Except.bind, Except.ok.injEq, exists_eq_left']
    cases tree.find? place with
    | none => simp [throw, throwThe, MonadExceptOf.throw]
    | some entry =>
      cases entry <;> simp [pure, Except.pure, throw, throwThe, MonadExceptOf.throw]

/-- A file that can be read along a plain path is an entry of the tree. -/
theorem exists_entry_of_read {tree : FileTree} {path : Path} {bytes : List UInt8}
    (h : tree.read path = .ok bytes) (plain : path.IsPlain) :
    ∃ entry ∈ tree.entries, entry.1 = path := by
  obtain ⟨place, hplace, hfound⟩ := (read_eq_ok_iff _ _ _).1 h
  obtain rfl := locate_eq hplace plain
  unfold find? at hfound
  split at hfound
  · cases hfound
  · obtain ⟨found, hfound, -⟩ := Option.map_eq_some_iff.1 hfound
    exact ⟨found, List.mem_of_find?_eq_some hfound, by simpa using List.find?_some hfound⟩

/-- The tree with a new directory. -/
def makeDirectory (tree : FileTree) (path : Path) : Except FileFault FileTree := do
  let place ← tree.locate path
  match tree.find? place with
  | some _ => throw (.occupied path.text)
  | none => return tree.put place .directory

/-- The tree with a new file, which is empty. -/
def create (tree : FileTree) (path : Path) : Except FileFault FileTree := do
  let place ← tree.locate path
  match tree.find? place with
  | some _ => throw (.occupied path.text)
  | none => return tree.put place (.file [])

/-- The tree with a file of the given content, new or in place of the file that was there. -/
def write (tree : FileTree) (path : Path) (bytes : List UInt8) : Except FileFault FileTree := do
  let place ← tree.locate path
  match tree.find? place with
  | some .directory => throw (.isDirectory path.text)
  | _ => return tree.put place (.file bytes)

/-- Whether a path ends in a name of its own, and not in the root or the directory above. -/
def endsInName (path : Path) : Bool :=
  match path.names.getLast? with
  | some last => last != Path.above
  | none => false

/-- The tree with the file at one path moved to another, in place of the file that was there. -/
def move (tree : FileTree) (source target : Path) : Except FileFault FileTree := do
  let start ← tree.locate source
  let goal ← tree.locate target
  if !endsInName target then throw (.busy source.text target.text)
  match tree.find? start, tree.find? goal with
  | none, _ => throw (.missing source.text)
  | some _, some .directory => throw (.blockedMove source.text target.text)
  | some entry, _ => return (tree.erase start).put goal entry

end FileTree

end SchemaCodecs
