import AegisHoneypot.Library.KeyTable
import AegisHoneypot.Library.Utf8Text
import Mathlib.Data.List.Infix

-- A disk of directories and regular files, addressed by the components of an
-- absolute path, with the file operations a program performs on it. A failing
-- operation leaves the disk as it is. There are no links.
namespace FileTree
open Utf8Text

abbrev Path := List Text

inductive Entry where
  | dir
  | file (content : Bytes)
  deriving DecidableEq, Repr

abbrev Disk := KeyTable Path Entry

def entry (disk : Disk) (path : Path) : Option Entry :=
  if path = [] then some .dir else disk.lookup path

def isDir (disk : Disk) (path : Path) : Bool := entry disk path == some .dir

def names (disk : Disk) (path : Path) : List Text :=
  disk.keys.filterMap fun key => if key ≠ [] ∧ key.dropLast = path then key.getLast? else none

inductive DiskOp where
  | createDirAll (path : Path)
  | createDir (path : Path)
  | openCreate (path : Path)
  | append (path : Path) (content : Bytes)
  | write (path : Path) (content : Bytes)
  | removeFile (path : Path)
  | removeDirAll (path : Path)
  deriving DecidableEq, Repr

def DiskOp.target : DiskOp → Path
  | .createDirAll path | .createDir path | .openCreate path | .append path _ | .write path _
  | .removeFile path | .removeDirAll path => path

def ensureDir (disk : Disk) (path : Path) : Disk :=
  if (entry disk path).isSome then disk else disk.insert path .dir

-- An ancestor that is a regular file stops `create_dir_all` before it creates
-- anything.
def createDirAll (disk : Disk) (path : Path) : Disk :=
  if path.inits.all (fun ancestor => (entry disk ancestor).isNone || isDir disk ancestor) then
    path.inits.foldl ensureDir disk
  else disk

def createAt (disk : Disk) (path : Path) (new : Entry) : Disk :=
  if isDir disk path.dropLast then disk.insert path new else disk

-- Opening for writing: `update` is what happens to the content of the file,
-- which is created empty when its name is new.
def writeThrough (disk : Disk) (path : Path) (update : Bytes → Bytes) : Disk :=
  match entry disk path with
  | some .dir => disk
  | some (.file old) => disk.insert path (.file (update old))
  | none => createAt disk path (.file (update []))

def apply (disk : Disk) : DiskOp → Disk
  | .createDirAll path => createDirAll disk path
  | .createDir path => if (entry disk path).isSome then disk else createAt disk path .dir
  | .openCreate path => writeThrough disk path (fun old => old)
  | .append path content => writeThrough disk path (fun old => old ++ content)
  | .write path content => writeThrough disk path (fun _ => content)
  | .removeFile path => match entry disk path with
    | some (.file _) => disk.erase path
    | _ => disk
  | .removeDirAll path => if isDir disk path then disk.retain (fun other _ => !decide (path <+: other)) else disk

-- What a program can ask of the disk below a path, and what it can have done
-- there. A mounted file system answers in its own way.
structure View where
  entry : Path → Option Entry
  names : Path → List Text

structure HostFs (σ : Type) where
  view : σ → View
  apply : σ → DiskOp → σ

def plain : HostFs Disk := ⟨fun disk => ⟨entry disk,names disk⟩,apply⟩

theorem insert_frame (disk : Disk) (new : Entry) (other : path ≠ target) :
    (disk.insert target new).lookup path = disk.lookup path := AList.lookup_insert_ne other

theorem ensureDir_frame (disk : Disk) (other : path ≠ target) :
    (ensureDir disk target).lookup path = disk.lookup path := by
  unfold ensureDir
  split
  · rfl
  · exact insert_frame disk .dir other

theorem ensureDirs_frame (disk : Disk) (targets : List Path) (apart : path ∉ targets) :
    (targets.foldl ensureDir disk).lookup path = disk.lookup path := by
  induction targets generalizing disk with
  | nil => rfl
  | cons target targets ih =>
    rw [List.mem_cons,not_or] at apart
    rw [List.foldl_cons,ih _ apart.2,ensureDir_frame disk apart.1]

theorem ensureDir_dir (disk : Disk) (target : Path) (held : isDir disk path = true) :
    isDir (ensureDir disk target) path = true := by
  unfold ensureDir
  split
  · exact held
  · by_cases same : path = target
    · subst same
      simp [isDir,entry]
    · simpa [isDir,entry,insert_frame disk .dir same] using held

theorem ensureDirs_dir (disk : Disk) (targets : List Path) (held : isDir disk path = true) :
    isDir (targets.foldl ensureDir disk) path = true := by
  induction targets generalizing disk with
  | nil => exact held
  | cons target targets ih => exact ih _ (ensureDir_dir disk target held)

theorem ensureDirs_made (disk : Disk) (targets : List Path) (free : entry disk path = none) (member : path ∈ targets) :
    isDir (targets.foldl ensureDir disk) path = true := by
  induction targets generalizing disk with
  | nil => cases member
  | cons target targets ih =>
    by_cases same : path = target
    · subst same
      have fresh : ensureDir disk path = disk.insert path .dir := by rw [ensureDir,if_neg (by simp [free])]
      rw [List.foldl_cons,fresh]
      apply ensureDirs_dir
      simp [isDir,entry]
    · have named : path ≠ [] := by
        intro root
        simp [entry,root] at free
      have still : entry (ensureDir disk target) path = none := by
        rw [entry,if_neg named] at free ⊢
        rw [ensureDir_frame disk same]
        exact free
      exact ih _ still ((List.mem_cons.mp member).resolve_left same)

theorem createDirAll_empty (path : Path) : createDirAll ∅ path = path.inits.foldl ensureDir ∅ := by
  unfold createDirAll
  rw [if_pos]
  simp only [List.all_eq_true]
  intro ancestor _
  by_cases root : ancestor = [] <;> simp [entry,isDir,root]

theorem createAt_frame (disk : Disk) (new : Entry) (other : path ≠ target) :
    (createAt disk target new).lookup path = disk.lookup path := by
  unfold createAt
  split
  · exact insert_frame disk new other
  · rfl

theorem writeThrough_frame (disk : Disk) (update : Bytes → Bytes) (other : path ≠ target) :
    (writeThrough disk target update).lookup path = disk.lookup path := by
  unfold writeThrough
  split
  · rfl
  · exact insert_frame disk _ other
  · exact createAt_frame disk _ other

theorem ensureDirs_present (disk : Disk) (targets : List Path) (present : (entry disk path).isSome) :
    entry (targets.foldl ensureDir disk) path = entry disk path := by
  induction targets generalizing disk with
  | nil => rfl
  | cons target targets ih =>
    have same : entry (ensureDir disk target) path = entry disk path := by
      by_cases here : path = target
      · rw [ensureDir,if_pos (here ▸ present)]
      · unfold entry
        rw [ensureDir_frame disk here]
    rw [List.foldl_cons,ih _ (same ▸ present),same]

theorem createDirAll_frame (disk : Disk) (target : Path) (kept : ¬ path <+: target ∨ (entry disk path).isSome) :
    entry (createDirAll disk target) path = entry disk path := by
  unfold createDirAll
  split
  · rcases kept with above | present
    · unfold entry
      rw [ensureDirs_frame disk _ (by rwa [List.mem_inits])]
    · exact ensureDirs_present disk _ present
  · rfl

-- Whatever an operation changes lies below its target, or is missing on the way
-- to it.
theorem apply_kept (disk : Disk) (op : DiskOp) (below : ¬ op.target <+: path)
    (kept : ¬ path <+: op.target ∨ (entry disk path).isSome) : entry (apply disk op) path = entry disk path := by
  have other : path ≠ op.target := by
    intro same
    exact below (same ▸ List.prefix_refl _)
  have looked : ∀ after : Disk, after.lookup path = disk.lookup path → entry after path = entry disk path := by
    intro after same
    unfold entry
    rw [same]
  cases op with
  | createDirAll target => exact createDirAll_frame disk target kept
  | createDir target =>
    simp only [apply]
    split
    · rfl
    · exact looked _ (createAt_frame disk .dir other)
  | openCreate target => exact looked _ (writeThrough_frame disk _ other)
  | append target content => exact looked _ (writeThrough_frame disk _ other)
  | write target content => exact looked _ (writeThrough_frame disk _ other)
  | removeFile target =>
    simp only [apply]
    split
    · exact looked _ (AList.lookup_erase_ne other)
    · rfl
  | removeDirAll target =>
    simp only [apply]
    split
    · have outside : ¬ target <+: path := below
      apply looked
      rw [AList.lookup_retain]
      cases disk.lookup path with
      | none => rfl
      | some held => simp [Option.filter,outside]
    · rfl

theorem apply_frame (disk : Disk) (op : DiskOp) (below : ¬ op.target <+: path) (above : ¬ path <+: op.target) :
    (apply disk op).lookup path = disk.lookup path := by
  have named : path ≠ [] := by
    intro root
    exact above (root ▸ List.nil_prefix)
  have same := apply_kept disk op below (Or.inl above)
  rwa [entry,entry,if_neg named,if_neg named] at same

def Apart (left right : Path) : Prop := ¬ left <+: right ∧ ¬ right <+: left

theorem Apart.symm (apart : Apart left right) : Apart right left := ⟨apart.2,apart.1⟩

theorem Apart.below (apart : Apart left right) (inside : left <+: path) : ¬ right <+: path ∧ ¬ path <+: right := by
  refine ⟨fun other => ?_,fun other => apart.1 (inside.trans other)⟩
  rcases List.prefix_or_prefix_of_prefix inside other with nested | nested
  · exact apart.1 nested
  · exact apart.2 nested

theorem Apart.extend (apart : Apart left right) (inside : left <+: path) : Apart path right :=
  ⟨(apart.below inside).2,(apart.below inside).1⟩

theorem apply_apart (disk : Disk) (op : DiskOp) (apart : Apart root place) (inside : root <+: op.target)
    (under : place <+: path) : (apply disk op).lookup path = disk.lookup path := by
  have targets := apart.extend inside
  exact apply_frame disk op (targets.symm.below under).1 (targets.symm.below under).2

def Below (root path : Path) : Prop := root <+: path ∧ path ≠ root

-- Strictly below the root; a directory and its missing ancestors are created at
-- or below it.
def Confined (root : Path) (op : DiskOp) : Prop := Below root op.target ∨ ∃ dir, op = .createDirAll dir ∧ root <+: dir

def InPlace (root : Path) (disk : Disk) : Prop := ∀ ancestor, ancestor <+: root → isDir disk ancestor = true

theorem Confined.inside (confined : Confined root op) : root <+: op.target := by
  rcases confined with below | ⟨dir,rfl,inside⟩
  · exact below.1
  · exact inside

-- Outside the root only the root itself and what is above it can be on the way.
theorem InPlace.present (inPlace : InPlace root disk) (outside : ¬ Below root path) (inside : root <+: target) :
    ¬ path <+: target ∨ (entry disk path).isSome := by
  by_cases above : path <+: target
  · have reaches : path <+: root := by
      rcases List.prefix_or_prefix_of_prefix above inside with up | down
      · exact up
      · by_cases same : path = root
        · exact same ▸ List.prefix_refl _
        · exact absurd ⟨down,same⟩ outside
    have dir : entry disk path = some .dir := by simpa [isDir] using inPlace path reaches
    exact Or.inr (by rw [dir]; rfl)
  · exact Or.inl above

theorem confined_apply (inPlace : InPlace root disk) (confined : Confined root op) (outside : ¬ Below root path) :
    entry (apply disk op) path = entry disk path := by
  have kept : ¬ path <+: op.target ∨ (entry disk path).isSome := inPlace.present outside confined.inside
  rcases confined with below | ⟨dir,rfl,inside⟩
  · refine apply_kept disk op (fun under => outside ⟨below.1.trans under,?_⟩) kept
    intro same
    subst same
    exact below.2 (under.eq_of_length (Nat.le_antisymm under.length_le below.1.length_le))
  · exact createDirAll_frame disk dir kept

theorem confined_inPlace (inPlace : InPlace root disk) (confined : Confined root op) : InPlace root (apply disk op) := by
  intro ancestor above
  have outside : ¬ Below root ancestor := fun below =>
    below.2 (above.eq_of_length (Nat.le_antisymm above.length_le below.1.length_le))
  rw [isDir,confined_apply inPlace confined outside]
  exact inPlace ancestor above

theorem confined_all (inPlace : InPlace root disk) (ops : List DiskOp) (confined : ∀ op ∈ ops, Confined root op)
    (outside : ¬ Below root path) : entry (ops.foldl apply disk) path = entry disk path := by
  induction ops generalizing disk with
  | nil => rfl
  | cons op rest ih =>
    rw [List.forall_mem_cons] at confined
    rw [List.foldl_cons,ih (confined_inPlace inPlace confined.1) confined.2,confined_apply inPlace confined.1 outside]

-- The same file system, with the operations it is asked for.
def traced (fs : HostFs σ) : HostFs (σ × List DiskOp) where
  view host := fs.view host.1
  apply host op := (fs.apply host.1 op,host.2 ++ [op])

end FileTree
