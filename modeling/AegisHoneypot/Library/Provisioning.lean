import AegisHoneypot.Library.TreeShape
import Mathlib.Logic.Function.Basic

-- An image of directories and files that is laid over a disk call by call. The
-- program can be stopped between two calls and inside one.
namespace Provisioning
open FileTree Utf8Text

structure ImageFile where
  path : Path
  mode : Nat
  content : Bytes
  deriving DecidableEq

-- No file of an image stands where something else of it is to be, and a directory
-- whose mode is set stays open to its owner.
structure Image where
  dirs : List Path
  marks : List (Path × Nat)
  files : List ImageFile
  named : ∀ file ∈ files, file.path ≠ []
  beside : ∀ file ∈ files, ∀ dir ∈ dirs, ¬ file.path <+: dir
  apart : ∀ file ∈ files, ∀ other ∈ files, file.path <+: other.path → file = other
  marked : ∀ mark ∈ marks, mark.1 ∈ dirs
  once : ∀ mark ∈ marks, ∀ other ∈ marks, mark.1 = other.1 → mark = other
  opened : ∀ mark ∈ marks, mark.2.testBit 6 = true ∧ mark.2.testBit 7 = true

-- The image below a directory.
def Image.at (image : Image) (base : Path) : Image where
  dirs := image.dirs.map (base ++ ·)
  marks := image.marks.map fun mark => (base ++ mark.1,mark.2)
  files := image.files.map fun file => {file with path := base ++ file.path}
  named := by
    rw [List.forall_mem_map]
    intro file inside empty
    exact image.named file inside (List.append_eq_nil_iff.mp empty).2
  beside := by
    simp only [List.forall_mem_map,List.prefix_append_right_inj]
    exact image.beside
  apart := by
    simp only [List.forall_mem_map,List.prefix_append_right_inj]
    intro file inside other listed above
    rw [image.apart file inside other listed above]
  marked := by
    simp only [List.forall_mem_map]
    exact fun mark inside => List.mem_map_of_mem (image.marked mark inside)
  once := by
    simp only [List.forall_mem_map,List.append_cancel_left_eq]
    intro mark inside other listed same
    rw [image.once mark inside other listed same]
  opened := by
    rw [List.forall_mem_map]
    exact image.opened

-- Which of its permission bits a file has for the program.
inductive Standing where
  | owner
  | group
  | others
  deriving DecidableEq

def Standing.shift : Standing → Nat
  | .owner => 6
  | .group => 3
  | .others => 0

structure Tree where
  disk : Disk
  mode : Path → Nat
  standing : Path → Standing

-- Who runs the program, and what it gives to what it makes.
structure World where
  privileged : Bool
  dirMode : Nat
  fileMode : Nat

inductive Call where
  | makeDirs (path : Path)
  | write (path : Path) (content : Bytes)
  | chmod (path : Path) (mode : Nat)

inductive Right where
  | search
  | write

def Right.bit : Right → Nat
  | .search => 0
  | .write => 1

variable (world : World)

-- Root is let through everywhere.
def may (tree : Tree) (right : Right) (path : Path) : Bool :=
  world.privileged || (tree.mode path).testBit ((tree.standing path).shift+right.bit)

def owns (tree : Tree) (path : Path) : Bool := world.privileged || tree.standing path == .owner

def reaches (tree : Tree) (path : Path) : Bool :=
  path.inits.all fun ancestor => ancestor == path || may world tree .search ancestor

-- The directories that are made belong to the program.
def withDirs (tree : Tree) (path : Path) : Tree where
  disk := createDirAll tree.disk path
  mode other := if entry tree.disk other = entry (createDirAll tree.disk path) other then tree.mode other else world.dirMode
  standing other := if entry tree.disk other = entry (createDirAll tree.disk path) other then tree.standing other else .owner

-- No answer is an error. Setting a mode is not looked at again.
def perform (tree : Tree) : Call → Option Tree
  | .makeDirs path =>
    let next := withDirs world tree path
    if isDir next.disk path && reaches world next path &&
        path.inits.all (fun dir => (entry tree.disk dir).isSome || may world next .write dir.dropLast) then some next
    else none
  | .write path content =>
    let written := apply tree.disk (.write path content)
    if reaches world tree path then
      match entry tree.disk path with
      | some .dir => none
      | some (.file _) => if may world tree .write path then some {tree with disk := written} else none
      | none =>
        if isDir tree.disk path.dropLast && may world tree .write path.dropLast then
          some ⟨written,Function.update tree.mode path world.fileMode,Function.update tree.standing path .owner⟩
        else none
    else none
  | .chmod path mode =>
    some (if (entry tree.disk path).isSome && reaches world tree path && owns world tree path then
      {tree with mode := Function.update tree.mode path mode} else tree)

def performAll (tree : Tree) : List Call → Option Tree
  | [] => some tree
  | call :: rest => (perform world tree call).bind fun next => performAll next rest

-- What a call that is cut short has done.
inductive Cut (tree : Tree) : Call → Tree → Prop where
  | dirs : front <+: path → perform world tree (.makeDirs front) = some next → Cut tree (.makeDirs path) next
  | bytes : perform world tree (.write path part) = some next → Cut tree (.write path content) next

inductive Attempt : List Call → Tree → Tree → Prop where
  | stopped : Attempt calls tree tree
  | cut : Cut world tree call next → Attempt (call :: rest) tree next
  | went : perform world tree call = some next → Attempt rest next last → Attempt (call :: rest) tree last

-- Any number of attempts, each from the beginning.
inductive Attempts (calls : List Call) (origin : Tree) : Tree → Prop where
  | none : Attempts calls origin origin
  | again : Attempts calls origin tree → Attempt world calls tree next → Attempts calls origin next

namespace Image
variable (image : Image)

def OnWay (path : Path) : Prop := (∃ dir ∈ image.dirs, path <+: dir) ∨ ∃ file ∈ image.files, path <+: file.path.dropLast

def IsFile (path : Path) : Prop := ∃ file ∈ image.files, file.path = path

instance : DecidablePred image.OnWay := fun _ => inferInstanceAs (Decidable (_ ∨ _))

instance : DecidablePred image.IsFile := fun _ => inferInstanceAs (Decidable (∃ _ ∈ _, _))

def fileCalls (file : ImageFile) : List Call :=
  [.makeDirs file.path.dropLast,.chmod file.path 0o644,.write file.path file.content,.chmod file.path file.mode]

def calls : List Call :=
  image.dirs.map .makeDirs ++ image.marks.map (fun mark => .chmod mark.1 mark.2) ++ image.files.flatMap fileCalls

-- A disk with the image over it.
def laidOver (disk : Disk) (path : Path) : Option Entry :=
  match image.files.find? (fun file => file.path = path) with
  | some file => some (.file file.content)
  | none => if image.OnWay path then some .dir else entry disk path

-- A disk that has no file where a directory of the image goes, and no directory
-- where a file goes.
structure Fits (disk : Disk) : Prop where
  shaped : Shaped disk
  ways : ∀ path content, image.OnWay path → entry disk path ≠ some (.file content)
  files : ∀ path, image.IsFile path → entry disk path ≠ some .dir

-- A disk on which the program may go where the image goes and add what is missing
-- there, and whose files and marked directories of the image are its own.
structure Open (tree : Tree) : Prop where
  fresh : ∀ right : Right, (world.privileged || world.dirMode.testBit (6+right.bit)) = true
  search : ∀ path, image.OnWay path → entry tree.disk path = some .dir → may world tree .search path = true
  add : ∀ path, image.OnWay path ∨ image.IsFile path → entry tree.disk path = none →
    entry tree.disk path.dropLast = some .dir → may world tree .write path.dropLast = true
  owned : ∀ path, image.IsFile path ∨ path ∈ image.marks.map Prod.fst → (entry tree.disk path).isSome → owns world tree path = true

structure Laid (origin done : Tree) : Prop where
  shaped : Shaped done.disk
  entries : ∀ path, entry done.disk path = image.laidOver origin.disk path
  fileModes : ∀ file ∈ image.files, done.mode file.path = file.mode
  marks : ∀ mark ∈ image.marks, done.mode mark.1 = mark.2
  modes : ∀ path, (entry origin.disk path).isSome → ¬ image.IsFile path → path ∉ image.marks.map Prod.fst →
    done.mode path = origin.mode path

-- Part of the image is there.
structure Within (origin tree : Tree) : Prop where
  shaped : Shaped tree.disk
  entries : ∀ path, entry tree.disk path = entry origin.disk path ∨
    (image.OnWay path ∧ entry origin.disk path = none ∧ entry tree.disk path = some .dir) ∨
    (image.IsFile path ∧ ∃ content, entry tree.disk path = some (.file content))
  modes : ∀ path, (entry origin.disk path).isSome → ¬ image.IsFile path → path ∉ image.marks.map Prod.fst →
    tree.mode path = origin.mode path

theorem OnWay.above {image : Image} (way : image.OnWay path) (above : ancestor <+: path) : image.OnWay ancestor :=
  way.imp (fun ⟨dir,inside,onWay⟩ => ⟨dir,inside,above.trans onWay⟩) (fun ⟨file,inside,onWay⟩ => ⟨file,inside,above.trans onWay⟩)

theorem way_not_file {image : Image} (way : image.OnWay path) : ¬ image.IsFile path := by
  rintro ⟨file,inside,rfl⟩
  rcases way with ⟨dir,listed,onWay⟩ | ⟨other,listed,onWay⟩
  · exact image.beside file inside dir listed onWay
  · obtain rfl := image.apart file inside other listed (onWay.trans (List.dropLast_prefix _))
    exact dropLast_other (image.named file inside) (onWay.eq_of_length_le (List.dropLast_prefix _).length_le).symm

theorem origin_within (fits : image.Fits origin.disk) : image.Within origin origin :=
  ⟨fits.shaped,fun _ => .inl rfl,fun _ _ _ _ => rfl⟩

variable {image}

theorem Within.way (fits : image.Fits origin.disk) (within : image.Within origin tree) (way : image.OnWay path) (content : Bytes) :
    entry tree.disk path ≠ some (.file content) := by
  rcases within.entries path with same | ⟨_,_,dir⟩ | ⟨file,_⟩
  · rw [same]
    exact fits.ways path content way
  · rw [dir]
    nofun
  · exact absurd file (way_not_file way)

theorem Within.passable (fits : image.Fits origin.disk) (within : image.Within origin tree) (way : image.OnWay path) :
    Passable tree.disk path :=
  fun _ content above => within.way fits (way.above above) content

theorem Within.leaf (fits : image.Fits origin.disk) (within : image.Within origin tree) (file : image.IsFile path) :
    entry tree.disk path ≠ some .dir := by
  rcases within.entries path with same | ⟨way,_⟩ | ⟨_,content,held⟩
  · rw [same]
    exact fits.files path file
  · exact absurd file (way_not_file way)
  · rw [held]
    nofun

-- What is there already, but for a path, is left alone.
def Keeps (but : Path → Prop) (before after : Tree) : Prop :=
  ∀ path, ¬ but path → (entry before.disk path).isSome →
    entry after.disk path = entry before.disk path ∧ after.mode path = before.mode path

theorem Keeps.trans {but : Path → Prop} (one : Keeps but before middle) (other : Keeps but middle after) : Keeps but before after := by
  intro path allowed present
  obtain ⟨same,mode⟩ := one path allowed present
  obtain ⟨again,modes⟩ := other path allowed (by rw [same]; exact present)
  exact ⟨again.trans same,modes.trans mode⟩

variable {world}

theorem reaches_iff {tree : Tree} : reaches world tree path = true ↔
    ∀ ancestor, ancestor <+: path → ancestor ≠ path → may world tree .search ancestor = true := by
  simp only [reaches,List.all_eq_true,List.mem_inits,Bool.or_eq_true,beq_iff_eq,or_iff_not_imp_left]

theorem write_some (went : perform world tree (.write path content) = some next) :
    (∃ old, entry tree.disk path = some (.file old) ∧ next = {tree with disk := apply tree.disk (.write path content)}) ∨
      entry tree.disk path = none ∧ entry tree.disk path.dropLast = some .dir ∧
        next = ⟨apply tree.disk (.write path content),Function.update tree.mode path world.fileMode,
          Function.update tree.standing path .owner⟩ := by
  unfold perform at went
  dsimp only at went
  split at went
  · split at went
    · cases went
    · rename_i old held
      split at went
      · cases went
        exact .inl ⟨old,held,rfl⟩
      · cases went
    · rename_i free
      split at went
      · rename_i parent
        cases went
        rw [Bool.and_eq_true] at parent
        exact .inr ⟨free,by simpa [isDir] using parent.1,rfl⟩
      · cases went
  · cases went

theorem write_disk (went : perform world tree (.write path content) = some next) :
    next.disk = apply tree.disk (.write path content) := by
  obtain ⟨_,_,rfl⟩ | ⟨_,_,rfl⟩ := write_some went <;> rfl

theorem write_entry (named : path ≠ []) (went : perform world tree (.write path content) = some next) (other : Path) :
    entry next.disk other = (if other = path then some (.file content) else entry tree.disk other) ∧
      (other ≠ path → next.mode other = tree.mode other ∧ next.standing other = tree.standing other) := by
  obtain ⟨old,held,rfl⟩ | ⟨free,parent,rfl⟩ := write_some went
  · refine ⟨?_,fun _ => ⟨rfl,rfl⟩⟩
    dsimp only
    rw [apply,writeThrough,held]
    dsimp only
    rw [entry_insert _ _ named]
  · refine ⟨?_,fun apart => ⟨Function.update_of_ne apart _ _,Function.update_of_ne apart _ _⟩⟩
    dsimp only
    rw [apply,writeThrough,free]
    dsimp only
    rw [createAt,if_pos (by simpa [isDir] using parent),entry_insert _ _ named]

-- What is there already stays as it was.
theorem withDirs_kept (world : World) {tree : Tree} (path : Path) (present : (entry tree.disk other).isSome) :
    entry (withDirs world tree path).disk other = entry tree.disk other ∧
      (withDirs world tree path).mode other = tree.mode other ∧ (withDirs world tree path).standing other = tree.standing other := by
  have same : entry (createDirAll tree.disk path) other = entry tree.disk other := createDirAll_frame _ _ (.inr present)
  exact ⟨same,if_pos same.symm,if_pos same.symm⟩

theorem withDirs_fresh (world : World) {tree : Tree} (path : Path) (free : entry tree.disk other = none)
    (made : (entry (withDirs world tree path).disk other).isSome) :
    (withDirs world tree path).mode other = world.dirMode ∧ (withDirs world tree path).standing other = .owner := by
  have differ : entry tree.disk other ≠ entry (createDirAll tree.disk path) other := by
    intro same
    rw [withDirs,← same,free] at made
    cases made
  exact ⟨if_neg differ,if_neg differ⟩

theorem makeDirs_some (went : perform world tree (.makeDirs path) = some next) :
    next = withDirs world tree path ∧ entry next.disk path = some .dir := by
  unfold perform at went
  dsimp only at went
  split at went
  · rename_i made
    cases went
    simp only [Bool.and_eq_true] at made
    exact ⟨rfl,by simpa [isDir] using made.1.1⟩
  · cases went

theorem makeDirs_made (went : perform world tree (.makeDirs path) = some next) :
    next.disk = createDirAll tree.disk path ∧ entry next.disk path = some .dir ∧ Keeps (fun _ => False) tree next := by
  obtain ⟨rfl,made⟩ := makeDirs_some went
  refine ⟨rfl,made,fun other _ present => ?_⟩
  obtain ⟨kept,mode,_⟩ := withDirs_kept world path present
  exact ⟨kept,mode⟩

theorem chmod_entry (went : perform world tree (.chmod path mode) = some next) :
    next.disk = tree.disk ∧ next.standing = tree.standing ∧ (∀ other, other ≠ path → next.mode other = tree.mode other) ∧
      ((entry tree.disk path).isSome → reaches world tree path = true → owns world tree path = true → next.mode path = mode) := by
  cases went
  by_cases allowed : ((entry tree.disk path).isSome && reaches world tree path && owns world tree path) = true
  · rw [if_pos allowed]
    exact ⟨rfl,rfl,fun other apart => Function.update_of_ne apart _ _,fun _ _ _ => Function.update_self ..⟩
  · rw [if_neg allowed]
    refine ⟨rfl,rfl,fun _ _ => rfl,fun present reached own => absurd ?_ allowed⟩
    rw [present,reached,own]
    rfl

theorem chmod_mode (went : perform world tree (.chmod path mode) = some next) :
    next.mode path = tree.mode path ∨ owns world tree path = true ∧ next.mode path = mode := by
  cases went
  split
  · rename_i allowed
    rw [Bool.and_eq_true] at allowed
    exact .inr ⟨allowed.2,Function.update_self ..⟩
  · exact .inl rfl

-- The calls an image can lead to.
inductive Allows (image : Image) : Call → Prop where
  | makeDirs : image.OnWay path → Allows image (.makeDirs path)
  | write : image.IsFile path → Allows image (.write path content)
  | chmod : image.IsFile path → Allows image (.chmod path mode)
  | mark : (path,mode) ∈ image.marks → Allows image (.chmod path mode)

theorem file_named (file : image.IsFile path) : path ≠ [] := by
  obtain ⟨held,inside,rfl⟩ := file
  exact image.named held inside

theorem Within.present (within : image.Within origin tree) (present : (entry origin.disk path).isSome) (leaf : ¬ image.IsFile path) :
    entry tree.disk path = entry origin.disk path := by
  rcases within.entries path with same | ⟨_,free,_⟩ | ⟨file,_⟩
  · exact same
  · rw [free] at present
    cases present
  · exact absurd file leaf

theorem Within.perform (within : image.Within origin tree) (allowed : Allows image call)
    (went : perform world tree call = some next) : image.Within origin next := by
  cases allowed with
  | @makeDirs path way =>
    obtain ⟨made,_,keeps⟩ := makeDirs_made went
    refine ⟨made ▸ createDirAll_shaped within.shaped path,?_,?_⟩
    · intro other
      rw [made,createDirAll_entry]
      split
      · rename_i fresh
        obtain ⟨_,above,free⟩ := fresh
        refine .inr (.inl ⟨way.above above,?_,rfl⟩)
        rcases within.entries other with same | ⟨_,_,dir⟩ | ⟨_,content,held⟩
        · exact same ▸ free
        · exact absurd (free.symm.trans dir) nofun
        · exact absurd (free.symm.trans held) nofun
      · exact within.entries other
    · intro other present leaf unmarked
      have here : (entry tree.disk other).isSome := by rwa [within.present present leaf]
      rw [(keeps other id here).2,within.modes other present leaf unmarked]
  | @write path content file =>
    have wrote := write_entry (file_named file) went
    refine ⟨?_,?_,?_⟩
    · rw [write_disk went]
      exact apply_shaped within.shaped _
    · intro other
      rw [(wrote other).1]
      by_cases here : other = path
      · subst here
        rw [if_pos rfl]
        exact .inr (.inr ⟨file,content,rfl⟩)
      · rw [if_neg here]
        exact within.entries other
    · intro other present leaf unmarked
      have apart : other ≠ path := by
        rintro rfl
        exact leaf file
      rw [((wrote other).2 apart).1,within.modes other present leaf unmarked]
  | @chmod path mode file =>
    obtain ⟨same,_,others,_⟩ := chmod_entry went
    refine ⟨same ▸ within.shaped,fun other => same ▸ within.entries other,?_⟩
    intro other present leaf unmarked
    have apart : other ≠ path := by
      rintro rfl
      exact leaf file
    rw [others other apart,within.modes other present leaf unmarked]
  | @mark path mode marked =>
    obtain ⟨same,_,others,_⟩ := chmod_entry went
    refine ⟨same ▸ within.shaped,fun other => same ▸ within.entries other,?_⟩
    intro other present leaf unmarked
    have apart : other ≠ path := by
      rintro rfl
      exact unmarked (List.mem_map_of_mem marked)
    rw [others other apart,within.modes other present leaf unmarked]

-- The directories above a path of the image let the program through.
theorem Open.reaches (open_ : image.Open world tree) (shaped : Shaped tree.disk) (way : image.OnWay path.dropLast)
    (parent : entry tree.disk path.dropLast = some .dir) : Provisioning.reaches world tree path = true := by
  refine reaches_iff.mpr fun ancestor above other => ?_
  have inside := prefix_dropLast above other
  refine open_.search ancestor (way.above inside) ?_
  by_cases same : ancestor = path.dropLast
  · exact same ▸ parent
  · exact shaped _ _ (by rw [parent]; rfl) inside same

theorem parent_way (placed : image.OnWay path ∨ image.IsFile path) : image.OnWay path.dropLast := by
  rcases placed with way | ⟨file,inside,rfl⟩
  · exact way.above (List.dropLast_prefix _)
  · exact .inr ⟨file,inside,List.prefix_refl _⟩

theorem Open.withDirs (open_ : image.Open world tree) (path : Path) : image.Open world (withDirs world tree path) where
  fresh := open_.fresh
  search other way held := by
    rcases old : entry tree.disk other with _ | some_
    · obtain ⟨mode,standing⟩ := withDirs_fresh world path old (by rw [held]; rfl)
      rw [may,mode,standing]
      exact open_.fresh .search
    · obtain ⟨kept,mode,standing⟩ := withDirs_kept world path (by rw [old]; rfl)
      rw [may,mode,standing]
      exact open_.search other way (kept.symm.trans held)
  add other placed free parent := by
    have before : entry tree.disk other = none := by
      by_contra present
      rw [(withDirs_kept world path (Option.isSome_iff_ne_none.mpr present)).1] at free
      exact present free
    rcases old : entry tree.disk other.dropLast with _ | some_
    · obtain ⟨mode,standing⟩ := withDirs_fresh world path old (by rw [parent]; rfl)
      rw [may,mode,standing]
      exact open_.fresh .write
    · obtain ⟨kept,mode,standing⟩ := withDirs_kept world path (by rw [old]; rfl)
      rw [may,mode,standing]
      exact open_.add other placed before (kept.symm.trans parent)
  owned other listed present := by
    rcases old : entry tree.disk other with _ | some_
    · rw [owns,(withDirs_fresh world path old present).2]
      exact Bool.or_true _
    · rw [owns,(withDirs_kept world path (by rw [old]; rfl)).2.2]
      exact open_.owned other listed (by rw [old]; rfl)

theorem owned_may {tree : Tree} (own : owns world tree path = true) (bit : (tree.mode path).testBit (6+right.bit) = true) :
    may world tree right path = true := by
  rw [owns,Bool.or_eq_true,beq_iff_eq] at own
  rw [may,Bool.or_eq_true]
  refine own.imp_right fun mine => ?_
  rw [mine]
  exact bit

-- What a call that changes no entry and no owner keeps, where it only adds rights
-- on the way.
theorem Open.eased (open_ : image.Open world tree) (disk : next.disk = tree.disk) (standing : next.standing = tree.standing)
    (eases : ∀ path, image.OnWay path → ∀ right, may world tree right path = true → may world next right path = true) :
    image.Open world next where
  fresh := open_.fresh
  search path way held := eases path way .search (open_.search path way (disk ▸ held))
  add path placed free parent :=
    eases path.dropLast (parent_way placed) .write (open_.add path placed (disk ▸ free) (disk ▸ parent))
  owned path listed present := by
    rw [owns,standing]
    exact open_.owned path listed (disk ▸ present)

theorem Open.write (open_ : image.Open world tree) (file : image.IsFile path)
    (went : Provisioning.perform world tree (.write path content) = some next) : image.Open world next := by
  have wrote := write_entry (file_named file) went
  have beside : ∀ other, image.OnWay other → other ≠ path := by
    rintro other way rfl
    exact way_not_file way file
  have still : ∀ other, image.OnWay other → ∀ right, may world next right other = may world tree right other := by
    intro other way right
    rw [may,((wrote other).2 (beside other way)).1,((wrote other).2 (beside other way)).2,may]
  refine ⟨open_.fresh,?_,?_,?_⟩
  · intro other way held
    rw [(wrote other).1,if_neg (beside other way)] at held
    rw [still other way]
    exact open_.search other way held
  · intro other placed free parent
    have apart : other ≠ path := by
      rintro rfl
      rw [(wrote other).1,if_pos rfl] at free
      cases free
    rw [(wrote other).1,if_neg apart] at free
    rw [(wrote _).1,if_neg (beside _ (parent_way placed))] at parent
    rw [still _ (parent_way placed)]
    exact open_.add other placed free parent
  · intro other listed present
    by_cases here : other = path
    · subst here
      obtain ⟨old,held,rfl⟩ | ⟨_,_,rfl⟩ := write_some went
      · exact open_.owned other listed (by rw [held]; rfl)
      · simp [owns]
    · rw [owns,((wrote other).2 here).2]
      rw [(wrote other).1,if_neg here] at present
      exact open_.owned other listed present

-- A mark gives the owner both rights.
theorem mark_may (marked : (path,mode) ∈ image.marks) (went : Provisioning.perform world tree (.chmod path mode) = some next)
    (right : Right) (before : may world tree right path = true) : may world next right path = true := by
  obtain ⟨_,standing,_,_⟩ := chmod_entry went
  rcases chmod_mode went with kept | ⟨own,set⟩
  · rw [may,kept,standing]
    exact before
  · refine owned_may ?_ ?_
    · rw [owns,standing]
      exact own
    · rw [set]
      obtain ⟨search,write⟩ := image.opened _ marked
      cases right with
      | search => exact search
      | write => exact write

theorem Open.perform (open_ : image.Open world tree) (allowed : Allows image call) (went : perform world tree call = some next) :
    image.Open world next := by
  cases allowed with
  | @makeDirs path way =>
    obtain ⟨rfl,_⟩ := makeDirs_some went
    exact open_.withDirs path
  | @write path content file => exact open_.write file went
  | @chmod path mode file =>
    obtain ⟨same,standing,others,_⟩ := chmod_entry went
    refine open_.eased same standing fun other way right before => ?_
    have apart : other ≠ path := by
      rintro rfl
      exact way_not_file way file
    rw [may,others other apart,standing]
    exact before
  | @mark path mode marked =>
    obtain ⟨same,standing,others,_⟩ := chmod_entry went
    refine open_.eased same standing fun other _ right before => ?_
    by_cases here : other = path
    · subst here
      exact mark_may marked went right before
    · rw [may,others other here,standing]
      exact before

-- What every call of the image keeps is kept by attempts at it.
theorem cut_keeps {P : Tree → Prop} (keeps : ∀ tree call next, Allows image call → Provisioning.perform world tree call = some next →
    P tree → P next) (allowed : Allows image call) (cut : Cut world tree call next) (held : P tree) : P next := by
  cases cut with
  | dirs above went =>
    cases allowed with
    | makeDirs way => exact keeps _ _ _ (.makeDirs (way.above above)) went held
  | bytes went =>
    cases allowed with
    | write file => exact keeps _ _ _ (.write file) went held

theorem attempt_keeps {P : Tree → Prop} {calls : List Call} (keeps : ∀ tree call next, Allows image call →
    Provisioning.perform world tree call = some next → P tree → P next) (allowed : ∀ call ∈ calls, Allows image call)
    (attempt : Attempt world calls tree next) (held : P tree) : P next := by
  induction attempt with
  | stopped => exact held
  | cut cut => exact cut_keeps keeps (allowed _ List.mem_cons_self) cut held
  | went went _ ih =>
    exact ih (fun call inside => allowed call (List.mem_cons_of_mem _ inside)) (keeps _ _ _ (allowed _ List.mem_cons_self) went held)

theorem calls_allowed (image : Image) : ∀ call ∈ image.calls, Allows image call := by
  intro call inside
  rcases List.mem_append.mp inside with before | files
  · rcases List.mem_append.mp before with dirs | marks
    · obtain ⟨dir,listed,rfl⟩ := List.mem_map.mp dirs
      exact .makeDirs (.inl ⟨dir,listed,List.prefix_refl _⟩)
    · obtain ⟨mark,listed,rfl⟩ := List.mem_map.mp marks
      exact .mark listed
  · obtain ⟨file,listed,made⟩ := List.mem_flatMap.mp files
    have isFile : image.IsFile file.path := ⟨file,listed,rfl⟩
    simp only [fileCalls,List.mem_cons,List.not_mem_nil,or_false] at made
    rcases made with rfl | rfl | rfl | rfl
    · exact .makeDirs (.inr ⟨file,listed,List.prefix_refl _⟩)
    · exact .chmod isFile
    · exact .write isFile
    · exact .chmod isFile

theorem attempts_keep {P : Tree → Prop} (keeps : ∀ tree call next, Allows image call →
    Provisioning.perform world tree call = some next → P tree → P next) (attempts : Attempts world image.calls origin tree)
    (held : P origin) : P tree := by
  induction attempts with
  | none => exact held
  | again _ attempt ih => exact attempt_keeps keeps (calls_allowed image) attempt ih

-- Where a run of the calls goes on from.
structure Ready (world : World) (image : Image) (origin tree : Tree) : Prop where
  within : image.Within origin tree
  open_ : image.Open world tree

theorem origin_ready (fits : image.Fits origin.disk) (open_ : image.Open world origin) : Ready world image origin origin :=
  ⟨origin_within image fits,open_⟩

theorem Ready.perform (ready : Ready world image origin tree) (allowed : Allows image call)
    (went : Provisioning.perform world tree call = some next) : Ready world image origin next :=
  ⟨ready.within.perform allowed went,ready.open_.perform allowed went⟩

theorem Ready.attempts (ready : Ready world image origin origin) (attempts : Attempts world image.calls origin tree) :
    Ready world image origin tree :=
  attempts_keep (fun _ _ _ allowed went held => held.perform allowed went) attempts ready

theorem performAll_append (tree : Tree) (earlier later : List Call) :
    performAll world tree (earlier ++ later) = (performAll world tree earlier).bind fun middle => performAll world middle later := by
  induction earlier generalizing tree with
  | nil => rfl
  | cons call rest ih =>
    rw [List.cons_append,performAll,performAll]
    cases perform world tree call with
    | none => rfl
    | some next => exact ih next

theorem Within.performAll {calls : List Call} (within : image.Within origin tree) (allowed : ∀ call ∈ calls, Allows image call)
    (went : performAll world tree calls = some next) : image.Within origin next := by
  induction calls generalizing tree with
  | nil =>
    cases went
    exact within
  | cons call rest ih =>
    obtain ⟨middle,first,later⟩ := Option.bind_eq_some_iff.mp went
    exact ih (within.perform (allowed _ List.mem_cons_self) first) (fun other inside => allowed other (List.mem_cons_of_mem _ inside))
      later

variable (world)

-- Steps of a program that each reach a goal of their own and spoil none.
theorem each_completes {U : Type} (ready : Tree → Prop) (steps : U → List Call) (goal : U → Tree → Prop) (all units : List U)
    (listed : units ⊆ all) (completes : ∀ unit ∈ all, ∀ tree, ready tree → ∃ next, performAll world tree (steps unit) = some next ∧
      ready next ∧ goal unit next ∧ ∀ other ∈ all, goal other tree → goal other next) (now : ready tree) :
    ∃ last, performAll world tree (units.flatMap steps) = some last ∧ ready last ∧ (∀ unit ∈ units, goal unit last) ∧
      ∀ other ∈ all, goal other tree → goal other last := by
  induction units generalizing tree with
  | nil => exact ⟨tree,rfl,now,fun _ inside => absurd inside List.not_mem_nil,fun _ _ held => held⟩
  | cons unit rest ih =>
    obtain ⟨first,later⟩ := List.cons_subset.mp listed
    obtain ⟨next,went,still,reached,spared⟩ := completes unit first tree now
    obtain ⟨last,path,ends,goals,kept⟩ := ih later still
    refine ⟨last,?_,ends,?_,fun other inside held => kept other inside (spared other inside held)⟩
    · rw [List.flatMap_cons,performAll_append,went]
      exact path
    · intro other inside
      rcases List.mem_cons.mp inside with rfl | among
      · exact kept other first reached
      · exact goals other among

theorem makeDirs_completes (fits : image.Fits origin.disk) (ready : Ready world image origin tree) (way : image.OnWay path) :
    ∃ next, perform world tree (.makeDirs path) = some next := by
  have made : isDir (withDirs world tree path).disk path = true := createDirAll_made (ready.within.passable fits way)
  have opened := ready.open_.withDirs path
  have shaped : Shaped (withDirs world tree path).disk := createDirAll_shaped ready.within.shaped path
  have dirs : ∀ dir, dir <+: path → entry (withDirs world tree path).disk dir = some .dir := by
    intro dir above
    have there : entry (withDirs world tree path).disk path = some .dir := by simpa [isDir] using made
    by_cases same : dir = path
    · exact same ▸ there
    · exact shaped _ _ (by rw [there]; rfl) above same
  have reached : reaches world (withDirs world tree path) path = true :=
    reaches_iff.mpr fun ancestor above _ => opened.search ancestor (way.above above) (dirs ancestor above)
  have added : path.inits.all (fun dir => (entry tree.disk dir).isSome || may world (withDirs world tree path) .write dir.dropLast) =
      true := by
    simp only [List.all_eq_true,List.mem_inits,Bool.or_eq_true,or_iff_not_imp_left]
    intro dir above free
    rw [Option.not_isSome_iff_eq_none] at free
    have parent := dirs dir.dropLast ((List.dropLast_prefix dir).trans above)
    rcases old : entry tree.disk dir.dropLast with _ | some_
    · obtain ⟨mode,standing⟩ := withDirs_fresh world path old (by rw [parent]; rfl)
      rw [may,mode,standing]
      exact opened.fresh .write
    · obtain ⟨kept,mode,standing⟩ := withDirs_kept world path (by rw [old]; rfl)
      rw [may,mode,standing]
      exact ready.open_.add dir (.inl (way.above above)) free (kept.symm.trans parent)
  unfold perform
  dsimp only
  rw [made,reached,added]
  exact ⟨_,rfl⟩

theorem write_completes (fits : image.Fits origin.disk) (ready : Ready world image origin tree) (file : image.IsFile path)
    (parent : entry tree.disk path.dropLast = some .dir) (soft : (entry tree.disk path).isSome → may world tree .write path = true)
    (content : Bytes) : ∃ next, perform world tree (.write path content) = some next := by
  have reached := ready.open_.reaches ready.within.shaped (parent_way (.inr file)) parent
  unfold perform
  dsimp only
  rw [if_pos reached]
  rcases held : entry tree.disk path with _ | (_ | old)
  · have made : isDir tree.disk path.dropLast = true := by simpa [isDir] using parent
    dsimp only
    rw [made,ready.open_.add path (.inr file) held parent]
    exact ⟨_,rfl⟩
  · exact absurd held (ready.within.leaf fits file)
  · rw [held] at soft
    dsimp only
    rw [soft rfl,if_pos rfl]
    exact ⟨_,rfl⟩

theorem file_completes (fits : image.Fits origin.disk) (ready : Ready world image origin tree) (inside : file ∈ image.files) :
    ∃ next, performAll world tree (fileCalls file) = some next ∧ Ready world image origin next ∧
      (entry next.disk file.path = some (.file file.content) ∧ next.mode file.path = file.mode) ∧
      Keeps (· = file.path) tree next := by
  have isFile : image.IsFile file.path := ⟨file,inside,rfl⟩
  have way : image.OnWay file.path.dropLast := parent_way (.inr isFile)
  obtain ⟨made,went⟩ := makeDirs_completes world fits ready way
  obtain ⟨_,parent,spared⟩ := makeDirs_made went
  have once := ready.perform (.makeDirs way) went
  obtain ⟨soft,softened⟩ : ∃ soft, perform world made (.chmod file.path 0o644) = some soft := ⟨_,rfl⟩
  obtain ⟨same,_,others,mode⟩ := chmod_entry softened
  have twice := once.perform (.chmod isFile) softened
  have writable : (entry soft.disk file.path).isSome → may world soft .write file.path = true := by
    intro present
    have own := twice.open_.owned file.path (.inl isFile) present
    rw [same] at present
    have set := mode present (once.open_.reaches once.within.shaped way parent) (once.open_.owned file.path (.inl isFile) present)
    exact owned_may own (by rw [set]; decide)
  obtain ⟨full,wrote⟩ := write_completes world fits twice isFile (same ▸ parent) writable file.content
  have written := write_entry (file_named isFile) wrote
  have thrice := twice.perform (.write isFile) wrote
  obtain ⟨done,finished⟩ : ∃ done, perform world full (.chmod file.path file.mode) = some done := ⟨_,rfl⟩
  obtain ⟨still,_,rest,final⟩ := chmod_entry finished
  have held : entry full.disk file.path = some (.file file.content) := by rw [(written file.path).1,if_pos rfl]
  have above : entry full.disk file.path.dropLast = some .dir := by
    rw [(written _).1,if_neg (dropLast_other (file_named isFile)),same]
    exact parent
  refine ⟨done,?_,thrice.perform (.chmod isFile) finished,⟨still ▸ held,?_⟩,?_⟩
  · rw [fileCalls,performAll,went,Option.bind_some,performAll,softened,Option.bind_some,performAll,wrote,Option.bind_some,
      performAll,finished,Option.bind_some,performAll]
  · have present : (entry full.disk file.path).isSome := by
      rw [held]
      rfl
    exact final present (thrice.open_.reaches thrice.within.shaped way above) (thrice.open_.owned file.path (.inl isFile) present)
  · intro path apart present
    obtain ⟨kept,modes⟩ := spared path id present
    rw [still,(written path).1,if_neg apart,same,rest path apart,((written path).2 apart).1,others path apart]
    exact ⟨kept,modes⟩

theorem mark_way {mark : Path × Nat} (inside : mark ∈ image.marks) : image.OnWay mark.1 :=
  .inl ⟨mark.1,image.marked mark inside,List.prefix_refl _⟩

theorem dirs_complete (fits : image.Fits origin.disk) (ready : Ready world image origin tree) :
    ∃ next, performAll world tree (image.dirs.map .makeDirs) = some next ∧ Ready world image origin next ∧
      ∀ dir ∈ image.dirs, entry next.disk dir = some .dir := by
  have completes : ∀ dir ∈ image.dirs, ∀ tree, Ready world image origin tree →
      ∃ next, performAll world tree [.makeDirs dir] = some next ∧ Ready world image origin next ∧ entry next.disk dir = some .dir ∧
        ∀ other ∈ image.dirs, entry tree.disk other = some .dir → entry next.disk other = some .dir := by
    intro dir inside tree ready
    have way : image.OnWay dir := .inl ⟨dir,inside,List.prefix_refl _⟩
    obtain ⟨next,went⟩ := makeDirs_completes world fits ready way
    obtain ⟨_,held,spared⟩ := makeDirs_made went
    refine ⟨next,?_,ready.perform (.makeDirs way) went,held,?_⟩
    · rw [performAll,went]
      rfl
    · intro other _ there
      rw [(spared other id (by rw [there]; rfl)).1]
      exact there
  obtain ⟨next,went,still,dirs,_⟩ := each_completes world (Ready world image origin) (fun dir => [.makeDirs dir])
    (fun dir tree => entry tree.disk dir = some .dir) image.dirs image.dirs (List.Subset.refl _) completes ready
  exact ⟨next,by rwa [List.map_eq_flatMap],still,dirs⟩

theorem marks_complete (ready : Ready world image origin tree) (dirs : ∀ dir ∈ image.dirs, entry tree.disk dir = some .dir) :
    ∃ next, performAll world tree (image.marks.map (fun mark => .chmod mark.1 mark.2)) = some next ∧ Ready world image origin next ∧
      (∀ dir ∈ image.dirs, entry next.disk dir = some .dir) ∧ ∀ mark ∈ image.marks, next.mode mark.1 = mark.2 := by
  have completes : ∀ mark ∈ image.marks, ∀ tree,
      (Ready world image origin tree ∧ ∀ dir ∈ image.dirs, entry tree.disk dir = some .dir) →
      ∃ next, performAll world tree [.chmod mark.1 mark.2] = some next ∧
        (Ready world image origin next ∧ ∀ dir ∈ image.dirs, entry next.disk dir = some .dir) ∧ next.mode mark.1 = mark.2 ∧
        ∀ other ∈ image.marks, tree.mode other.1 = other.2 → next.mode other.1 = other.2 := by
    rintro mark inside tree ⟨ready,dirs⟩
    obtain ⟨next,went⟩ : ∃ next, perform world tree (.chmod mark.1 mark.2) = some next := ⟨_,rfl⟩
    obtain ⟨same,_,others,mode⟩ := chmod_entry went
    have there := dirs mark.1 (image.marked mark inside)
    have present : (entry tree.disk mark.1).isSome := by
      rw [there]
      rfl
    have way := mark_way inside
    have reached : reaches world tree mark.1 = true := by
      refine reaches_iff.mpr fun ancestor above other => ready.open_.search ancestor (way.above above) ?_
      exact ready.within.shaped _ _ present above other
    have reach : next.mode mark.1 = mark.2 :=
      mode present reached (ready.open_.owned mark.1 (.inr (List.mem_map_of_mem inside)) present)
    refine ⟨next,?_,⟨ready.perform (.mark inside) went,same ▸ dirs⟩,reach,?_⟩
    · rw [performAll,went]
      rfl
    · intro other listed held
      by_cases here : other.1 = mark.1
      · rw [image.once other listed mark inside here]
        exact reach
      · rw [others other.1 here]
        exact held
  obtain ⟨next,went,⟨still,made⟩,marks,_⟩ := each_completes world _ (fun mark : Path × Nat => [.chmod mark.1 mark.2])
    (fun mark tree => tree.mode mark.1 = mark.2) image.marks image.marks (List.Subset.refl _) completes ⟨ready,dirs⟩
  exact ⟨next,by rwa [List.map_eq_flatMap],still,made,marks⟩

-- The directories, the modes set on some of them and what of the image is there.
structure Based (world : World) (image : Image) (origin tree : Tree) : Prop where
  ready : Ready world image origin tree
  dirs : ∀ dir ∈ image.dirs, entry tree.disk dir = some .dir
  marks : ∀ mark ∈ image.marks, tree.mode mark.1 = mark.2

theorem Based.lays (based : Based world image origin tree) (fits : image.Fits origin.disk) (inside : file ∈ image.files) :
    ∃ next, performAll world tree (fileCalls file) = some next ∧ Based world image origin next ∧
      (entry next.disk file.path = some (.file file.content) ∧ next.mode file.path = file.mode) ∧
      ∀ other ∈ image.files, entry tree.disk other.path = some (.file other.content) ∧ tree.mode other.path = other.mode →
        entry next.disk other.path = some (.file other.content) ∧ next.mode other.path = other.mode := by
  obtain ⟨next,went,still,reached,spared⟩ := file_completes world fits based.ready inside
  have apart : ∀ path, image.OnWay path → path ≠ file.path := by
    rintro path way rfl
    exact way_not_file way ⟨file,inside,rfl⟩
  refine ⟨next,went,⟨still,?_,?_⟩,reached,?_⟩
  · intro dir listed
    have there := based.dirs dir listed
    rw [(spared dir (apart dir (.inl ⟨dir,listed,List.prefix_refl _⟩)) (by rw [there]; rfl)).1]
    exact there
  · intro mark listed
    have there := based.dirs mark.1 (image.marked mark listed)
    rw [(spared mark.1 (apart mark.1 (mark_way listed)) (by rw [there]; rfl)).2]
    exact based.marks mark listed
  · rintro other listed ⟨there,mode⟩
    by_cases here : other.path = file.path
    · rw [image.apart other listed file inside (here ▸ List.prefix_refl _)]
      exact reached
    · obtain ⟨kept,modes⟩ := spared other.path here (by rw [there]; rfl)
      exact ⟨kept.trans there,modes.trans mode⟩

theorem laidOver_file (disk : Disk) (inside : file ∈ image.files) : image.laidOver disk file.path = some (.file file.content) := by
  unfold laidOver
  split
  · rename_i other found
    have same : other.path = file.path := by simpa using List.find?_some found
    rw [image.apart other (List.mem_of_find?_eq_some found) file inside (same ▸ List.prefix_refl _)]
  · rename_i none
    exact absurd (decide_eq_true rfl) (List.find?_eq_none.mp none file inside)

theorem laidOver_off (disk : Disk) (leaf : ¬ image.IsFile path) :
    image.laidOver disk path = if image.OnWay path then some .dir else entry disk path := by
  unfold laidOver
  split
  · rename_i file found
    have same : file.path = path := by simpa using List.find?_some found
    exact absurd ⟨file,List.mem_of_find?_eq_some found,same⟩ leaf
  · rfl

theorem laidOver_way (disk : Disk) (way : image.OnWay path) : image.laidOver disk path = some .dir := by
  rw [laidOver_off disk (way_not_file way),if_pos way]

theorem Within.laidOver (within : image.Within origin tree) (dirs : ∀ dir ∈ image.dirs, entry tree.disk dir = some .dir)
    (files : ∀ file ∈ image.files, entry tree.disk file.path = some (.file file.content)) (path : Path) :
    entry tree.disk path = image.laidOver origin.disk path := by
  by_cases leaf : image.IsFile path
  · obtain ⟨file,inside,rfl⟩ := leaf
    rw [laidOver_file origin.disk inside]
    exact files file inside
  · rw [laidOver_off origin.disk leaf]
    split
    · rename_i way
      rcases way with ⟨dir,inside,above⟩ | ⟨file,inside,above⟩
      · have there := dirs dir inside
        by_cases here : path = dir
        · exact here ▸ there
        · exact within.shaped dir path (by rw [there]; rfl) above here
      · have there := files file inside
        exact within.shaped.above (by rw [there]; rfl) above (image.named file inside)
    · rename_i off
      rcases within.entries path with same | ⟨way,_⟩ | ⟨file,_⟩
      · exact same
      · exact absurd way off
      · exact absurd file leaf

theorem laidOver_kept (fits : image.Fits disk) (present : (entry disk path).isSome) (leaf : ¬ image.IsFile path) :
    image.laidOver disk path = entry disk path := by
  rw [laidOver_off disk leaf]
  split
  · rename_i way
    rcases held : entry disk path with _ | (_ | content)
    · rw [held] at present
      cases present
    · rfl
    · exact absurd held (fits.ways path content way)
  · rfl

theorem OnWay.under (way : image.OnWay path) (base : Path) : (image.at base).OnWay (base ++ path) := by
  rcases way with ⟨dir,inside,above⟩ | ⟨file,inside,above⟩
  · exact .inl ⟨base ++ dir,List.mem_map_of_mem inside,(List.prefix_append_right_inj base).mpr above⟩
  · refine .inr ⟨_,List.mem_map_of_mem inside,?_⟩
    rw [List.dropLast_append_of_ne_nil (image.named file inside)]
    exact (List.prefix_append_right_inj base).mpr above

theorem way_under {base : Path} (way : (image.at base).OnWay path) : ∃ rest, image.OnWay rest ∧ path <+: base ++ rest := by
  rcases way with ⟨_,listed,above⟩ | ⟨_,listed,above⟩
  · obtain ⟨dir,inside,rfl⟩ := List.mem_map.mp listed
    exact ⟨dir,.inl ⟨dir,inside,List.prefix_refl _⟩,above⟩
  · obtain ⟨file,inside,rfl⟩ := List.mem_map.mp listed
    rw [List.dropLast_append_of_ne_nil (image.named file inside)] at above
    exact ⟨file.path.dropLast,.inr ⟨file,inside,List.prefix_refl _⟩,above⟩

theorem apart_unplaced {base : Path} (apart : Apart path base) : ¬ (image.at base).OnWay path ∧ ¬ (image.at base).IsFile path := by
  constructor
  · intro way
    obtain ⟨rest,_,above⟩ := way_under way
    exact (List.prefix_or_prefix_of_prefix above (List.prefix_append base rest)).elim apart.1 apart.2
  · rintro ⟨_,listed,rfl⟩
    obtain ⟨file,_,rfl⟩ := List.mem_map.mp listed
    exact apart.2 (List.prefix_append _ _)

theorem Within.apart {base : Path} (within : (image.at base).Within origin tree) (apart : Apart path base) :
    entry tree.disk path = entry origin.disk path := by
  obtain ⟨off,leaf⟩ : ¬ (image.at base).OnWay path ∧ ¬ (image.at base).IsFile path := apart_unplaced apart
  rcases within.entries path with same | ⟨way,_⟩ | ⟨file,_⟩
  · exact same
  · exact absurd way off
  · exact absurd file leaf

-- A run that is not stopped goes through, and what it leaves is the image.
theorem calls_complete (fits : image.Fits origin.disk) (ready : Ready world image origin tree) :
    ∃ done, performAll world tree image.calls = some done ∧ image.Laid origin done ∧ image.Open world done := by
  obtain ⟨made,makes,begun,dirs⟩ := dirs_complete world fits ready
  obtain ⟨marked,sets,still,kept,marks⟩ := marks_complete world begun dirs
  obtain ⟨done,writes,based,files,_⟩ := each_completes world (Based world image origin) fileCalls
    (fun file tree => entry tree.disk file.path = some (.file file.content) ∧ tree.mode file.path = file.mode)
    image.files image.files (List.Subset.refl _) (fun file inside tree based => based.lays world fits inside) ⟨still,kept,marks⟩
  have within := based.ready.within
  refine ⟨done,?_,⟨within.shaped,within.laidOver based.dirs (fun file inside => (files file inside).1),
    fun file inside => (files file inside).2,based.marks,within.modes⟩,based.ready.open_⟩
  rw [calls,List.append_assoc,performAll_append,makes,Option.bind_some,performAll_append,sets]
  exact writes

-- However often and wherever it was stopped before.
theorem converges (fits : image.Fits origin.disk) (open_ : image.Open world origin) (attempts : Attempts world image.calls origin tree) :
    ∃ done, performAll world tree image.calls = some done ∧ image.Laid origin done ∧ image.Open world done :=
  calls_complete world fits ((origin_ready fits open_).attempts attempts)

end Image

end Provisioning
