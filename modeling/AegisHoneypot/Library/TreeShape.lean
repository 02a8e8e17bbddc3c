import AegisHoneypot.Library.FileTree

-- Disks on which everything above an entry is a directory, and what the
-- creating operations do to each path of such a disk.
namespace FileTree
open Utf8Text

def Shaped (disk : Disk) : Prop :=
  ∀ path ancestor, (entry disk path).isSome → ancestor <+: path → ancestor ≠ path → entry disk ancestor = some .dir

-- No regular file stands at the path or on the way to it.
def Passable (disk : Disk) (path : Path) : Prop :=
  ∀ ancestor content, ancestor <+: path → entry disk ancestor ≠ some (.file content)

theorem entry_root (disk : Disk) : entry disk [] = some .dir := rfl

theorem entry_lookup (disk : Disk) (named : path ≠ []) : entry disk path = disk.lookup path := if_neg named

theorem entry_insert (disk : Disk) (new : Entry) (named : target ≠ []) (path : Path) :
    entry (disk.insert target new) path = if path = target then some new else entry disk path := by
  by_cases root : path = []
  · subst root
    simp [entry,Ne.symm named]
  · rw [entry_lookup _ root,entry_lookup _ root,AList.lookup_insert_split]

theorem prefix_dropLast (above : ancestor <+: path) (other : ancestor ≠ path) : ancestor <+: path.dropLast := by
  obtain ⟨rest,rfl⟩ := above
  cases rest using List.reverseRecOn with
  | nil => simp at other
  | append_singleton rest last => simp [← List.append_assoc]

theorem dropLast_other (named : path ≠ []) : path.dropLast ≠ path := by
  intro same
  have shorter := congrArg List.length same
  rw [List.length_dropLast] at shorter
  have some_ := List.length_pos_iff.mpr named
  omega

theorem Shaped.above (shaped : Shaped disk) (present : (entry disk path).isSome) (inside : ancestor <+: path.dropLast) :
    path ≠ [] → entry disk ancestor = some .dir := by
  intro named
  refine shaped path ancestor present (inside.trans (List.dropLast_prefix path)) ?_
  rintro rfl
  exact dropLast_other named (List.Sublist.antisymm (List.dropLast_sublist _) inside.sublist)

-- Above an entry nothing is missing.
theorem Shaped.missing (shaped : Shaped disk) (free : entry disk ancestor = none) (above : ancestor <+: path) :
    entry disk path = none := by
  by_cases same : ancestor = path
  · exact same ▸ free
  · cases present : entry disk path with
    | none => rfl
    | some held =>
      have dir := shaped path ancestor (by simp [present]) above same
      rw [free] at dir
      cases dir

theorem passable_all (disk : Disk) (target : Path) :
    target.inits.all (fun ancestor => (entry disk ancestor).isNone || isDir disk ancestor) = true ↔ Passable disk target := by
  rw [List.all_eq_true]
  constructor
  · intro all ancestor content above held
    have clear := all ancestor ((List.mem_inits _ _).mpr above)
    simp [held,isDir] at clear
  · intro passable ancestor member
    cases held : entry disk ancestor with
    | none => rfl
    | some present =>
      cases present with
      | dir => simp [isDir,held]
      | file content => exact absurd held (passable ancestor content ((List.mem_inits _ _).mp member))

instance (disk : Disk) (path : Path) : Decidable (Passable disk path) := decidable_of_iff _ (passable_all disk path)

theorem createDirAll_entry (disk : Disk) (target path : Path) :
    entry (createDirAll disk target) path =
      if Passable disk target ∧ path <+: target ∧ entry disk path = none then some .dir else entry disk path := by
  by_cases free : entry disk path = none
  · by_cases above : path <+: target
    · by_cases passable : Passable disk target
      · rw [if_pos ⟨passable,above,free⟩,createDirAll,if_pos ((passable_all disk target).mpr passable)]
        simpa [isDir] using ensureDirs_made disk _ free ((List.mem_inits _ _).mpr above)
      · rw [if_neg (fun all => passable all.1),createDirAll,if_neg (fun all => passable ((passable_all disk target).mp all))]
    · rw [if_neg (fun all => above all.2.1)]
      exact createDirAll_frame disk target (Or.inl above)
  · rw [if_neg (fun all => free all.2.2)]
    exact createDirAll_frame disk target (Or.inr (Option.ne_none_iff_isSome.mp free))

-- Making the parents of a path leaves the path itself as it is.
theorem parents_beside (disk : Disk) (named : target ≠ []) :
    entry (createDirAll disk target.dropLast) target = entry disk target := by
  refine createDirAll_frame disk _ (Or.inl ?_)
  intro above
  exact dropLast_other named (List.Sublist.antisymm (List.dropLast_sublist _) above.sublist)

theorem createDirAll_made (passable : Passable disk target) : isDir (createDirAll disk target) target = true := by
  unfold isDir
  rw [createDirAll_entry]
  rcases held : entry disk target with _ | (_ | content)
  · simp [passable]
  · simp
  · exact absurd held (passable _ content (List.prefix_refl _))

-- What a path holds once a target has been made with its missing parents; a file
-- in the way stops it before anything is created.
def grown (disk : Disk) (target : Path) (new : Entry) (path : Path) : Option Entry :=
  if Passable disk target ∧ path <+: target ∧ entry disk path = none then some (if path = target then new else .dir)
  else entry disk path

-- A new entry with its missing parents, as `create_dir_all` on the parent and
-- then the creation leave it.
theorem createAt_entry (shaped : Shaped disk) (named : target ≠ []) (free : entry disk target = none) (new : Entry) (path : Path) :
    entry (createAt (createDirAll disk target.dropLast) target new) path = grown disk target new path := by
  unfold grown
  have parent := createDirAll_entry disk target.dropLast target.dropLast
  by_cases passable : Passable disk target
  · have open_ : Passable disk target.dropLast :=
      fun ancestor content above => passable ancestor content (above.trans (List.dropLast_prefix _))
    rw [createAt,if_pos (createDirAll_made open_),entry_insert _ _ named,createDirAll_entry]
    by_cases same : path = target
    · subst same
      simp [passable,free]
    · have ways : path <+: target.dropLast ↔ path <+: target :=
        ⟨fun above => above.trans (List.dropLast_prefix _),fun above => prefix_dropLast above same⟩
      simp only [if_neg same,passable,open_,ways]
  · have closed : ¬ Passable disk target.dropLast := by
      intro open_
      refine passable ?_
      intro ancestor content above held
      by_cases same : ancestor = target
      · rw [same,free] at held
        cases held
      · exact open_ ancestor content (prefix_dropLast above same) held
    have same : entry (createDirAll disk target.dropLast) target.dropLast = entry disk target.dropLast := by
      rw [parent,if_neg (fun all => closed all.1)]
    have blocked : ¬ isDir (createDirAll disk target.dropLast) target.dropLast = true := by
      intro dir
      have held : entry disk target.dropLast = some .dir := by simpa [isDir,same] using dir
      refine closed ?_
      intro ancestor content above file
      by_cases last : ancestor = target.dropLast
      · rw [last,held] at file
        cases file
      · rw [shaped _ ancestor (by simp [held]) above last] at file
        cases file
    rw [createAt,if_neg blocked,createDirAll_entry,if_neg (fun all => closed all.1),if_neg (fun all => passable all.1)]

theorem makeDirs_entry (disk : Disk) (target path : Path) : entry (apply disk (.createDirAll target)) path = grown disk target .dir path := by
  unfold grown
  rw [apply,createDirAll_entry,ite_self]

-- The parents of an entry are there already.
theorem parents_present (shaped : Shaped disk) (named : target ≠ []) (present : (entry disk target).isSome) (path : Path) :
    entry (createDirAll disk target.dropLast) path = entry disk path := by
  rw [createDirAll_entry]
  refine if_neg ?_
  rintro ⟨_,above,free⟩
  rw [shaped.above present above named] at free
  cases free

theorem grown_present (shaped : Shaped disk) (present : (entry disk target).isSome) (new : Entry) (path : Path) :
    grown disk target new path = entry disk path := by
  refine if_neg ?_
  rintro ⟨_,above,free⟩
  rw [shaped.missing free above] at present
  cases present

theorem makeDir_entry (shaped : Shaped disk) (named : target ≠ []) (free : entry disk target = none) (path : Path) :
    entry (apply (createDirAll disk target.dropLast) (.createDir target)) path = grown disk target .dir path := by
  rw [apply,parents_beside disk named,free,if_neg (by simp)]
  exact createAt_entry shaped named free .dir path

theorem openCreate_entry (shaped : Shaped disk) (named : target ≠ []) (path : Path) :
    entry (apply (createDirAll disk target.dropLast) (.openCreate target)) path = grown disk target (.file []) path := by
  cases held : entry disk target with
  | none =>
    rw [apply,writeThrough,parents_beside disk named,held]
    exact createAt_entry shaped named held (.file []) path
  | some present =>
    have same := parents_present shaped named (by simp [held])
    rw [grown_present shaped (by simp [held]),apply,writeThrough,same target,held]
    cases present with
    | dir => exact same path
    | file content =>
      rw [entry_insert _ _ named,same path]
      split
      · rename_i here
        rw [here,held]
      · rfl

def contentAt (disk : Disk) (path : Path) : Bytes :=
  match entry disk path with
  | some (.file content) => content
  | _ => []

-- Appending to a file or to a new name, once its parents have been made.
theorem append_entry (disk : Disk) (named : target ≠ []) (passable : Passable disk target.dropLast)
    (leaf : entry disk target ≠ some .dir) (content : Bytes) :
    entry (apply (createDirAll disk target.dropLast) (.append target content)) target =
      some (.file (contentAt disk target ++ content)) := by
  rw [apply,writeThrough,parents_beside disk named,contentAt]
  rcases held : entry disk target with _ | (_ | old)
  · dsimp only
    rw [createAt,if_pos (createDirAll_made passable),entry_insert _ _ named,if_pos rfl]
  · exact absurd held leaf
  · dsimp only
    rw [entry_insert _ _ named,if_pos rfl]

-- A new directory, once its parents have been made.
theorem createDir_made (named : target ≠ []) (passable : Passable disk target.dropLast) (free : entry disk target = none) :
    entry (apply (createDirAll disk target.dropLast) (.createDir target)) target = some .dir := by
  rw [apply,parents_beside disk named,free,if_neg (by simp),createAt,if_pos (createDirAll_made passable),
    entry_insert _ _ named,if_pos rfl]

section Kept

theorem insert_shaped (shaped : Shaped disk) (named : target ≠ []) (parent : entry disk target.dropLast = some .dir)
    (leaf : entry disk target ≠ some .dir) (new : Entry) : Shaped (disk.insert target new) := by
  intro path ancestor present above other
  rw [entry_insert _ _ named] at present ⊢
  by_cases here : path = target
  · subst here
    rw [if_neg other]
    have inside := prefix_dropLast above other
    by_cases last : ancestor = path.dropLast
    · rw [last]
      exact parent
    · exact shaped _ ancestor (by simp [parent]) inside last
  · rw [if_neg here] at present
    have dir := shaped path ancestor present above other
    by_cases same : ancestor = target
    · exact absurd (same ▸ dir) leaf
    · rw [if_neg same]
      exact dir

theorem createDirAll_shaped (shaped : Shaped disk) (target : Path) : Shaped (createDirAll disk target) := by
  intro path ancestor present above other
  rw [createDirAll_entry] at present ⊢
  by_cases made : Passable disk target ∧ path <+: target ∧ entry disk path = none
  · obtain ⟨passable,inside,_⟩ := made
    have way : ancestor <+: target := above.trans inside
    cases held : entry disk ancestor with
    | none => rw [if_pos ⟨passable,way,rfl⟩]
    | some here =>
      cases here with
      | dir => simp
      | file content => exact absurd held (passable ancestor content way)
  · rw [if_neg made] at present
    have dir := shaped path ancestor present above other
    rw [if_neg]
    · exact dir
    · rintro ⟨_,_,free⟩
      rw [dir] at free
      cases free

theorem createAt_shaped (shaped : Shaped disk) (free : entry disk target = none) (new : Entry) :
    Shaped (createAt disk target new) := by
  have named : target ≠ [] := by
    rintro rfl
    cases free
  unfold createAt
  split
  · rename_i parent
    refine insert_shaped shaped named (by simpa [isDir] using parent) ?_ new
    rw [free]
    intro same
    cases same
  · exact shaped

theorem writeThrough_shaped (shaped : Shaped disk) (target : Path) (update : Bytes → Bytes) :
    Shaped (writeThrough disk target update) := by
  unfold writeThrough
  split
  · exact shaped
  · rename_i old held
    have named : target ≠ [] := by
      rintro rfl
      cases held
    refine insert_shaped shaped named (shaped.above (by simp [held]) (List.prefix_refl _) named) ?_ _
    rw [held]
    intro same
    cases same
  · rename_i free
    exact createAt_shaped shaped free _

theorem erase_entry (disk : Disk) (named : target ≠ []) (path : Path) :
    entry (disk.erase target) path = if path = target then none else entry disk path := by
  by_cases root : path = []
  · subst root
    simp [entry,Ne.symm named]
  · rw [entry_lookup _ root,entry_lookup _ root,AList.lookup_erase_split]

theorem file_named (held : entry disk target = some (.file content)) : target ≠ [] := by
  rintro rfl
  cases held

theorem removeFile_shaped (shaped : Shaped disk) (held : entry disk target = some (.file content)) : Shaped (disk.erase target) := by
  have erased := erase_entry disk (file_named held)
  intro path ancestor present above other
  rw [erased] at present ⊢
  by_cases here : path = target
  · simp [here] at present
  · rw [if_neg here] at present
    have dir := shaped path ancestor present above other
    by_cases same : ancestor = target
    · rw [same,held] at dir
      cases dir
    · rw [if_neg same]
      exact dir

-- Nothing lies below a file.
theorem removeFile_entry (shaped : Shaped disk) (held : entry disk target = some (.file content)) (path : Path) :
    entry (apply disk (.removeFile target)) path = if target <+: path then none else entry disk path := by
  rw [apply,held]
  dsimp only
  rw [erase_entry disk (file_named held)]
  by_cases same : path = target
  · rw [if_pos same,if_pos (same ▸ List.prefix_refl _)]
  · rw [if_neg same]
    split
    · rename_i below
      cases present : entry disk path with
      | none => rfl
      | some _ =>
        have dir := shaped path target (by rw [present]; rfl) below (Ne.symm same)
        rw [held] at dir
        cases dir
    · rfl

-- What lies below a removed directory is gone with it.
theorem removeDirAll_entry (disk : Disk) (target path : Path) (named : path ≠ []) (dir : isDir disk target = true) :
    entry (apply disk (.removeDirAll target)) path = if target <+: path then none else entry disk path := by
  rw [apply,if_pos dir,entry_lookup _ named,entry_lookup _ named,AList.lookup_retain]
  by_cases below : target <+: path
  · rw [if_pos below]
    cases disk.lookup path <;> simp [Option.filter,below]
  · rw [if_neg below]
    cases disk.lookup path <;> simp [Option.filter,below]

theorem removeDirAll_shaped (shaped : Shaped disk) (target : Path) : Shaped (apply disk (.removeDirAll target)) := by
  by_cases dir : isDir disk target = true
  · intro path ancestor present above other
    have named : path ≠ [] := by
      rintro rfl
      exact other (List.prefix_nil.mp above)
    rw [removeDirAll_entry disk target path named dir] at present
    by_cases below : target <+: path
    · simp [below] at present
    · rw [if_neg below] at present
      have held := shaped path ancestor present above other
      by_cases root : ancestor = []
      · rw [root,entry_root]
      · rw [removeDirAll_entry disk target ancestor root dir,if_neg (fun under => below (under.trans above))]
        exact held
  · rw [apply,if_neg dir]
    exact shaped

theorem apply_shaped (shaped : Shaped disk) (op : DiskOp) : Shaped (apply disk op) := by
  cases op with
  | createDirAll target => exact createDirAll_shaped shaped target
  | createDir target =>
    simp only [apply]
    split
    · exact shaped
    · rename_i free
      exact createAt_shaped shaped (by simpa using free) .dir
  | openCreate target => exact writeThrough_shaped shaped target _
  | append target content => exact writeThrough_shaped shaped target _
  | write target content => exact writeThrough_shaped shaped target _
  | removeFile target =>
    simp only [apply]
    split
    · rename_i content held
      exact removeFile_shaped shaped held
    · exact shaped
  | removeDirAll target => exact removeDirAll_shaped shaped target

theorem empty_shaped : Shaped ∅ := by
  intro path ancestor present above other
  by_cases root : path = []
  · subst root
    exact absurd (List.prefix_nil.mp above) other
  · rw [entry_lookup _ root] at present
    cases present

theorem built_shaped (shaped : Shaped disk) (ops : List DiskOp) : Shaped (ops.foldl apply disk) := by
  induction ops generalizing disk with
  | nil => exact shaped
  | cons op rest ih => exact ih (apply_shaped shaped op)

end Kept

end FileTree
