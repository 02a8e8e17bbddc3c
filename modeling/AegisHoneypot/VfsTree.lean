import AegisHoneypot.VfsDepth

-- What each path of the in-memory tree holds, before and after a change.
namespace AegisHoneypot.VfsTree
open FileTree VfsNode Vfs VfsDepth

-- A node without what lies below it.
inductive Look where
  | dir (perms : Text)
  | file (node : FileNode)
  deriving DecidableEq, Repr

def look : FsNode → Look
  | .dir perms _ => .dir perms
  | .file node => .file node

def below : FsNode → Path → Option FsNode
  | node,[] => some node
  | .dir _ children,part :: rest => (Children.get children part).bind (fun child => below child rest)
  | .file _,_ :: _ => none

def rootNode (root : Children) : FsNode := .dir "drwxr-xr-x".toList root

def lookAt (root : Children) (parts : Path) : Option Look := (root.getNodeSafe parts).map look

theorem getNodeSafe_below (root : Children) (parts : Path) : root.getNodeSafe parts = below (rootNode root) parts := by
  have general : ∀ (parts : Path) (perms : Text) (children : Children) (part : Text),
      children.getNodeSafe (part :: parts) = below (.dir perms children) (part :: parts) := by
    intro parts
    induction parts with
    | nil =>
      intro perms children part
      simp only [Children.getNodeSafe,below]
      cases Children.get children part with
      | none => rfl
      | some child => cases child <;> rfl
    | cons next rest ih =>
      intro perms children part
      simp only [Children.getNodeSafe]
      rw [below]
      cases Children.get children part with
      | none => rfl
      | some child =>
        cases child with
        | file node => rfl
        | dir inner deeper => exact ih inner deeper next
  cases parts with
  | nil => rfl
  | cons part rest => exact general rest _ root part

theorem below_append (node : FsNode) (parts rest : Path) :
    below node (parts ++ rest) = (below node parts).bind (fun inner => below inner rest) := by
  induction parts generalizing node with
  | nil => cases node <;> rfl
  | cons part later ih =>
    cases node with
    | file held => rfl
    | dir perms children =>
      rw [List.cons_append,below,below]
      cases Children.get children part with
      | none => rfl
      | some child => exact ih child

theorem getDir_below (root : Children) (parts : Path) :
    root.getDir parts = (below (rootNode root) parts).bind (fun node => match node with
      | .dir _ children => some children
      | .file _ => none) := by
  have general : ∀ (parts : Path) (perms : Text) (children : Children),
      children.getDir parts = (below (.dir perms children) parts).bind (fun node => match node with
        | .dir _ inner => some inner
        | .file _ => none) := by
    intro parts
    induction parts with
    | nil => intro perms children; rfl
    | cons part rest ih =>
      intro perms children
      rw [Children.getDir,below]
      cases Children.get children part with
      | none => rfl
      | some child =>
        cases child with
        | dir inner deeper => exact ih inner deeper
        | file node => cases rest <;> rfl
  exact general parts _ root

theorem whole_path (named : parts ≠ []) : parts.dropLast ++ [VfsState.baseName parts] = parts := by
  rw [VfsState.baseName,List.getLast?_eq_some_getLast named,Option.getD_some,List.dropLast_append_getLast]

-- A path is looked up in the directory `get_dir_mut` reaches for its parent.
theorem getNodeSafe_parent (root : Children) (named : parts ≠ []) :
    root.getNodeSafe parts = (root.getDir parts.dropLast).bind (fun children => children.get (VfsState.baseName parts)) := by
  conv_lhs => rw [← whole_path named]
  rw [getNodeSafe_below,below_append,getDir_below]
  cases below (rootNode root) parts.dropLast with
  | none => rfl
  | some node =>
    cases node with
    | file held => rfl
    | dir perms children =>
      simp only [Option.bind_some]
      rw [below]
      cases Children.get children (VfsState.baseName parts) with
      | none => rfl
      | some child => cases child <;> rfl

theorem remove_get_split (children : Children) (name other : Text) :
    (children.remove name).get other = if other = name then none else children.get other := by
  induction children with
  | nil => exact (ite_self none).symm
  | cons child rest ih =>
    obtain ⟨key,held⟩ := child
    simp only [Children.remove,Children.get] at ih ⊢
    rw [List.filter_cons,List.lookup_cons]
    by_cases gone : key = name
    · rw [if_neg (by simpa using gone),ih]
      by_cases same : other = name
      · rw [if_pos same,if_pos same]
      · have apart : (other == key) = false := by simpa [gone] using same
        rw [if_neg same,if_neg same,apart]
    · rw [if_pos (by simpa using gone),List.lookup_cons,ih]
      by_cases here : other = key
      · have same : (other == key) = true := by simpa using here
        have kept : other ≠ name := fun equal => gone (here.symm.trans equal)
        simp only [same,if_neg kept]
      · have apart : (other == key) = false := by simpa using here
        rw [apart]

theorem insert_get_split (children : Children) (name other : Text) (node : FsNode) :
    (children.insert name node).get other = if other = name then some node else children.get other := by
  by_cases same : other = name
  · subst same
    rw [if_pos rfl]
    exact insert_get children other node
  · have kept := remove_get_split children name other
    have apart : (other == name) = false := by simpa using same
    simp only [Children.insert,Children.get,List.lookup_cons,apart,if_neg same] at kept ⊢
    exact kept

-- A directory that differs from another in one name only.
def Replaces (name : Text) (new : Option FsNode) (before after : Children) : Prop :=
  ∀ other, after.get other = if other = name then new else before.get other

theorem below_putDir (replaces : Replaces name new children changed) (root : Children) (perms : Text) (parts : Path)
    (found : root.getDir parts = some children) (path : Path) :
    (below (.dir perms (root.putDir parts changed)) path).map look =
      if parts ++ [name] <+: path then new.bind (fun node => (below node (path.drop (parts.length+1))).map look)
      else (below (.dir perms root) path).map look := by
  induction parts generalizing root perms path with
  | nil =>
    obtain rfl : root = children := Option.some.inj found
    cases path with
    | nil => rfl
    | cons part rest =>
      rw [Children.putDir,below,below,replaces part]
      by_cases same : part = name
      · subst same
        have inside : [part] <+: part :: rest := ⟨rest,rfl⟩
        rw [if_pos rfl,List.nil_append,if_pos inside,Option.map_bind]
        rfl
      · have apart : ¬ [name] <+: part :: rest := by simpa [eq_comm] using same
        rw [if_neg same,List.nil_append,if_neg apart]
  | cons first later ih =>
    rw [Children.getDir] at found
    cases held : root.get first with
    | none => simp [held] at found
    | some node =>
      cases node with
      | file held_ => simp [held] at found
      | dir inner deeper =>
        rw [held] at found
        rw [Children.putDir,held]
        cases path with
        | nil => rfl
        | cons part rest =>
          rw [below,below,insert_get_split]
          by_cases same : part = first
          · subst same
            rw [if_pos rfl,held,Option.bind_some,Option.bind_some,ih deeper inner found rest]
            simp
          · have apart : ¬ first :: (later ++ [name]) <+: part :: rest := by
              rw [List.cons_prefix_cons]
              exact fun both => same both.1.symm
            rw [if_neg same,List.cons_append,if_neg apart]

theorem lookAt_putDir (replaces : Replaces name new children changed) (root : Children) (parts : Path)
    (found : root.getDir parts = some children) (path : Path) :
    lookAt (root.putDir parts changed) path =
      if parts ++ [name] <+: path then new.bind (fun node => (below node (path.drop (parts.length+1))).map look)
      else lookAt root path := by
  unfold lookAt
  rw [getNodeSafe_below,getNodeSafe_below]
  exact below_putDir replaces root _ parts found path

theorem insert_replaces (children : Children) (name : Text) (node : FsNode) :
    Replaces name (some node) children (children.insert name node) :=
  fun other => insert_get_split children name other node

theorem setParent_lookAt (state : VfsState σ) (named : parts ≠ []) (found : state.parentDir parts = some children)
    (replaces : Replaces (VfsState.baseName parts) new children changed) (path : Path) :
    lookAt (state.setParent parts changed).vfs.root path =
      if parts <+: path then new.bind (fun node => (below node (path.drop parts.length)).map look)
      else lookAt state.vfs.root path := by
  have length : parts.dropLast.length + 1 = parts.length := by
    rw [List.length_dropLast]
    have some_ := List.length_pos_iff.mpr named
    omega
  have changed := lookAt_putDir replaces state.vfs.root parts.dropLast found path
  rw [whole_path named,length] at changed
  exact changed

theorem remove_replaces (children : Children) (name : Text) : Replaces name none children (children.remove name) :=
  remove_get_split children name

-- A node with nothing below it replaces whatever was at and below the path.
theorem insertLeaf_lookAt (state : VfsState σ) (named : parts ≠ []) (found : state.parentDir parts = some children)
    (leaf : ∀ part rest, below node (part :: rest) = none) (path : Path) :
    lookAt (state.setParent parts (children.insert (VfsState.baseName parts) node)).vfs.root path =
      if parts <+: path then (if path = parts then some (look node) else none) else lookAt state.vfs.root path := by
  rw [setParent_lookAt state named found (insert_replaces children _ _)]
  by_cases inside : parts <+: path
  · obtain ⟨rest,rfl⟩ := inside
    cases rest with
    | nil => simp [below]
    | cons part later => simp [leaf]
  · rw [if_neg inside,if_neg inside]

-- Below what is not a directory of the tree there is nothing.
theorem lookAt_below (leaf : ∀ perms, lookAt root ancestor ≠ some (.dir perms)) (inside : ancestor <+: path)
    (other : path ≠ ancestor) : lookAt root path = none := by
  obtain ⟨rest,rfl⟩ := inside
  unfold lookAt at leaf ⊢
  rw [getNodeSafe_below] at leaf
  rw [getNodeSafe_below,below_append]
  rcases held : below (rootNode root) ancestor with _ | (node | ⟨perms,children⟩)
  · rfl
  · cases rest with
    | nil => simp at other
    | cons part later => rfl
  · rw [held] at leaf
    exact absurd rfl (leaf perms)

-- `mkdir -p` adds directories on the way and leaves everything else as it is.
theorem below_makeDirs (root : Children) (perms : Text) (parts path : Path) :
    (below (.dir perms (root.makeDirs parts)) path).map look = (below (.dir perms root) path).map look ∨
    ((below (.dir perms root) path).map look = none ∧ path <+: parts) := by
  induction parts generalizing root perms path with
  | nil => exact Or.inl rfl
  | cons first later ih =>
    rw [Children.makeDirs]
    cases path with
    | nil =>
      left
      split <;> rfl
    | cons part rest =>
      by_cases same : part = first
      · subst same
        split
        · rename_i free
          rw [below,below,insert_get_split,if_pos rfl,free,Option.bind_some,Option.bind_none]
          rcases ih [] "drwxr-xr-x".toList rest with kept | ⟨_,inside⟩
          · cases rest with
            | nil => exact Or.inr ⟨rfl,List.cons_prefix_cons.mpr ⟨rfl,List.nil_prefix⟩⟩
            | cons next more =>
              left
              rw [kept]
              rfl
          · exact Or.inr ⟨rfl,List.cons_prefix_cons.mpr ⟨rfl,inside⟩⟩
        · rename_i inner deeper held
          rw [below,below,insert_get_split,if_pos rfl,held,Option.bind_some,Option.bind_some]
          rcases ih deeper inner rest with kept | ⟨free,inside⟩
          · exact Or.inl kept
          · exact Or.inr ⟨free,List.cons_prefix_cons.mpr ⟨rfl,inside⟩⟩
        · exact Or.inl rfl
      · left
        split
        · rw [below,below,insert_get_split,if_neg same]
        · rw [below,below,insert_get_split,if_neg same]
        · rfl

theorem lookAt_makeDirs (root : Children) (parts path : Path) :
    lookAt (root.makeDirs parts) path = lookAt root path ∨ (lookAt root path = none ∧ path <+: parts) := by
  unfold lookAt
  rw [getNodeSafe_below,getNodeSafe_below]
  exact below_makeDirs root _ parts path

end AegisHoneypot.VfsTree
