import AegisHoneypot.ShellDispatch

-- How deep the in-memory tree is, and what the commands do to that.
namespace AegisHoneypot.VfsDepth
open FileTree Utf8Text VfsNode Vfs

mutual
def nodeDepth : FsNode → Nat
  | .file _ => 0
  | .dir _ children => depth children + 1
def depth : List (Text × FsNode) → Nat
  | [] => 0
  | (_,node) :: rest => max (nodeDepth node) (depth rest)
end

theorem get_depth (children : Children) (name : Text) (found : children.get name = some node) :
    nodeDepth node ≤ depth children := by
  induction children with
  | nil => cases found
  | cons child rest ih =>
    obtain ⟨key,other⟩ := child
    simp only [Children.get,List.lookup_cons] at found ih
    simp only [depth]
    split at found
    · cases found
      exact Nat.le_max_left ..
    · exact Nat.le_trans (ih found) (Nat.le_max_right ..)

theorem remove_depth (children : Children) (name : Text) : depth (children.remove name) ≤ depth children := by
  induction children with
  | nil => exact Nat.le_refl 0
  | cons child rest ih =>
    obtain ⟨key,node⟩ := child
    simp only [Children.remove,List.filter_cons] at ih ⊢
    split
    · simp only [depth]
      omega
    · simp only [depth]
      omega

theorem insert_depth (children : Children) (name : Text) (node : FsNode) :
    depth (children.insert name node) ≤ max (nodeDepth node) (depth children) := by
  have fewer := remove_depth children name
  simp only [Children.insert,depth]
  omega

theorem insert_get (children : Children) (name : Text) (node : FsNode) :
    (children.insert name node).get name = some node := by
  simp [Children.insert,Children.get]

theorem getDir_depth (root : Children) (parts : Path) (found : root.getDir parts = some children) :
    parts.length + depth children ≤ depth root := by
  induction parts generalizing root with
  | nil =>
    cases found
    simp
  | cons part rest ih =>
    simp only [Children.getDir] at found
    split at found
    · rename_i perms inner held
      have below := ih inner found
      have here := get_depth root part held
      simp only [nodeDepth] at here
      simp only [List.length_cons]
      omega
    · cases found

theorem putDir_depth (root : Children) (parts : Path) (changed : Children) :
    depth (root.putDir parts changed) ≤ max (depth root) (parts.length + depth changed) := by
  induction parts generalizing root with
  | nil =>
    simp only [Children.putDir,List.length_nil]
    omega
  | cons part rest ih =>
    simp only [Children.putDir]
    split
    · rename_i perms inner held
      have below := ih inner
      have here := get_depth root part held
      have outer := insert_depth root part (.dir perms (Children.putDir inner rest changed))
      simp only [nodeDepth] at here outer
      simp only [List.length_cons]
      omega
    · omega

theorem putDir_getDir (root : Children) (parts : Path) (changed : Children) (found : root.getDir parts = some children)
    (rest : Path) : (root.putDir parts changed).getDir (parts ++ rest) = changed.getDir rest := by
  induction parts generalizing root with
  | nil => rfl
  | cons part later ih =>
    simp only [Children.getDir] at found
    simp only [Children.putDir,List.cons_append,Children.getDir]
    split at found
    · rename_i perms inner held
      simp only [insert_get]
      exact ih inner found
    · cases found

theorem getNodeSafe_dir (root : Children) (parts : Path) (found : root.getDir parts = some children) :
    ∃ perms, root.getNodeSafe parts = some (.dir perms children) := by
  induction parts generalizing root with
  | nil =>
    cases found
    exact ⟨_,rfl⟩
  | cons part rest ih =>
    simp only [Children.getDir] at found
    split at found
    · rename_i perms inner held
      cases rest with
      | nil =>
        cases found
        exact ⟨perms,held⟩
      | cons next later =>
        simp only [Children.getNodeSafe,held]
        exact ih inner found
    · cases found

-- A file of the tree lies on the way.
def Blocked (root : Children) (parts : Path) : Prop := ∃ early node, early <+: parts ∧ root.getNodeSafe early = some (.file node)

theorem blocked_nil (root : Children) : ¬ Blocked root [] := by
  intro given
  obtain ⟨early,node,inside,found⟩ := given
  rw [List.prefix_nil.mp inside] at found
  cases found

theorem blocked_dir (found : root.get part = some (.dir perms children)) (rest : Path) :
    Blocked root (part :: rest) ↔ Blocked children rest := by
  constructor
  · intro given
    obtain ⟨early,node,inside,held⟩ := given
    cases early with
    | nil => cases held
    | cons first later =>
      rw [List.cons_prefix_cons] at inside
      obtain ⟨rfl,inside⟩ := inside
      cases later with
      | nil =>
        simp only [Children.getNodeSafe,found] at held
        cases held
      | cons second more =>
        simp only [Children.getNodeSafe,found] at held
        exact ⟨_,node,inside,held⟩
  · intro given
    obtain ⟨early,node,inside,held⟩ := given
    refine ⟨part :: early,node,List.cons_prefix_cons.mpr ⟨rfl,inside⟩,?_⟩
    cases early with
    | nil => cases held
    | cons second more => simpa only [Children.getNodeSafe,found] using held

theorem blocked_file (found : root.get part = some (.file node)) (rest : Path) : Blocked root (part :: rest) :=
  ⟨[part],node,List.cons_prefix_cons.mpr ⟨rfl,List.nil_prefix⟩,found⟩

theorem blocked_free (free : root.get part = none) (rest : Path) : ¬ Blocked root (part :: rest) := by
  intro given
  obtain ⟨early,node,inside,held⟩ := given
  cases early with
  | nil => cases held
  | cons first later =>
    rw [List.cons_prefix_cons] at inside
    obtain ⟨rfl,_⟩ := inside
    cases later with
    | nil =>
      rw [Children.getNodeSafe,free] at held
      cases held
    | cons second more =>
      simp only [Children.getNodeSafe,free] at held
      cases held

theorem makeDirs_depth (root : Children) (parts : Path) : depth (root.makeDirs parts) ≤ max (depth root) parts.length := by
  induction parts generalizing root with
  | nil => simp [Children.makeDirs]
  | cons part rest ih =>
    simp only [Children.makeDirs,List.length_cons]
    split
    · have below := ih []
      have outer := insert_depth root part (.dir "drwxr-xr-x".toList (Children.makeDirs [] rest))
      simp only [nodeDepth,depth] at below outer
      omega
    · rename_i perms inner held
      have below := ih inner
      have here := get_depth root part held
      have outer := insert_depth root part (.dir perms (Children.makeDirs inner rest))
      simp only [nodeDepth] at here outer
      omega
    · omega

theorem makeDirs_blocked (root : Children) (parts : Path) (blocked : Blocked root parts) :
    depth (root.makeDirs parts) ≤ depth root := by
  induction parts generalizing root with
  | nil => exact absurd blocked (blocked_nil root)
  | cons part rest ih =>
    simp only [Children.makeDirs]
    split
    · rename_i free
      exact absurd blocked (blocked_free free rest)
    · rename_i perms inner held
      have below := ih inner ((blocked_dir held rest).mp blocked)
      have here := get_depth root part held
      have outer := insert_depth root part (.dir perms (Children.makeDirs inner rest))
      simp only [nodeDepth] at here outer
      omega
    · exact Nat.le_refl _

theorem makeDirs_reaches (root : Children) (parts : Path) (free : ¬ Blocked root parts) :
    ∃ children, (root.makeDirs parts).getDir parts = some children := by
  induction parts generalizing root with
  | nil => exact ⟨root,rfl⟩
  | cons part rest ih =>
    simp only [Children.makeDirs]
    split
    · have empty : ¬ Blocked [] rest := by
        cases rest with
        | nil => exact blocked_nil []
        | cons first later => exact blocked_free rfl later
      obtain ⟨children,found⟩ := ih [] empty
      exact ⟨children,by simpa only [Children.getDir,insert_get] using found⟩
    · rename_i perms inner held
      obtain ⟨children,found⟩ := ih inner (fun blocked => free ((blocked_dir held rest).mpr blocked))
      exact ⟨children,by simpa only [Children.getDir,insert_get] using found⟩
    · rename_i node held
      exact absurd (blocked_file held rest) free

section Commands
variable {σ : Type} (fs : HostFs σ)

theorem createParents_vfs (state : VfsState σ) (path : Path) : (state.createParents fs path).vfs = state.vfs := by
  unfold VfsState.createParents
  split <;> rfl

theorem setParent_depth (state : VfsState σ) (parts : Path) (changed : Children)
    (found : state.parentDir parts = some children) (fewer : depth changed ≤ depth children) :
    depth (state.setParent parts changed).vfs.root ≤ depth state.vfs.root := by
  have outer := putDir_depth state.vfs.root parts.dropLast changed
  have held := getDir_depth state.vfs.root parts.dropLast found
  change depth (state.vfs.root.putDir parts.dropLast changed) ≤ _
  omega

theorem insertFile_depth (children : Children) (name : Text) (node : FileNode) :
    depth (children.insert name (.file node)) ≤ depth children := by
  have inner := insert_depth children name (.file node)
  simp only [nodeDepth] at inner
  omega

theorem onUpper_vfs (state : VfsState σ) (parts : Path) (act : Path → VfsState σ)
    (same : ∀ upper, (act upper).vfs = state.vfs) : (state.onUpper parts act).vfs = state.vfs := by
  unfold VfsState.onUpper
  split
  · rfl
  · exact same _

theorem written_vfs (state : VfsState σ) (parts : Path) (op : Path → DiskOp) :
    (state.onUpper parts (fun upper => (state.createParents fs upper).apply fs (op upper))).vfs = state.vfs := by
  apply onUpper_vfs
  intro upper
  exact createParents_vfs fs state upper

theorem touchTarget_depth (state : VfsState σ) (target : Text) :
    depth (VfsState.touchTarget fs state target).vfs.root ≤ depth state.vfs.root := by
  unfold VfsState.touchTarget
  dsimp only
  split
  · exact Nat.le_refl _
  · have same := written_vfs fs state (state.vfs.resolve target) .openCreate
    generalize VfsState.onUpper state (state.vfs.resolve target) _ = written at same ⊢
    rw [← same]
    split
    · rename_i children found
      split
      · exact Nat.le_refl _
      · exact setParent_depth written _ _ found (insertFile_depth ..)
    · exact Nat.le_refl _

theorem rmMemory_depth (recursive force : Bool) (target : Text) (parts : Path) (output : Text) (state : VfsState σ) :
    depth (VfsState.rmMemory recursive force target parts output state).2.vfs.root ≤ depth state.vfs.root := by
  unfold VfsState.rmMemory
  split
  · exact Nat.le_refl _
  · rename_i children found
    split
    · exact Nat.le_refl _
    · exact setParent_depth state _ _ found (remove_depth ..)
    · exact Nat.le_refl _

theorem rmDisk_vfs (recursive force : Bool) (state : VfsState σ) (upper : Path)
    (done : VfsState.rmDisk fs recursive force state upper = some removed) : removed.vfs = state.vfs := by
  unfold VfsState.rmDisk at done
  split at done
  · split at done
    · cases done
      rfl
    · split at done
      · cases done
        rfl
      · cases done
  · cases done
    rfl
  · cases done
    rfl

theorem rmTarget_depth (recursive force : Bool) (current : Text × VfsState σ) (target : Text) :
    depth (VfsState.rmTarget fs recursive force current target).2.vfs.root ≤ depth current.2.vfs.root := by
  obtain ⟨output,state⟩ := current
  unfold VfsState.rmTarget
  dsimp only
  split
  · exact Nat.le_refl _
  · split
    · exact rmMemory_depth ..
    · split
      · exact Nat.le_refl _
      · rename_i removed done
        rw [← rmDisk_vfs fs recursive force state _ done]
        exact rmMemory_depth ..

theorem writeFile_depth (state : VfsState σ) (target content : Text) (append : Bool) :
    depth (VfsState.writeFile fs state target content append).2.vfs.root ≤ depth state.vfs.root := by
  unfold VfsState.writeFile
  dsimp only
  split
  · exact Nat.le_refl _
  · have same := written_vfs fs state (state.vfs.resolve target)
      (fun upper => if append then .append upper (encode content) else .write upper (encode content))
    generalize VfsState.onUpper state (state.vfs.resolve target) _ = written at same ⊢
    rw [← same]
    split
    · exact Nat.le_refl _
    · rename_i children found
      apply setParent_depth written _ _ found
      split
      · exact insertFile_depth ..
      · exact insertFile_depth ..

theorem cd_root (vfs : VirtualFileSystem) (view : View) (arg : Text) : (vfs.cd view arg).2.root = vfs.root := by
  unfold VirtualFileSystem.cd
  dsimp only
  repeat' split
  all_goals rfl

theorem targets_depth {step : α → Text → α} (state : α → VfsState σ) (targets : List Text) (start : α)
    (one : ∀ current target, depth (state (step current target)).vfs.root ≤ depth (state current).vfs.root) :
    depth (state (targets.foldl step start)).vfs.root ≤ depth (state start).vfs.root := by
  induction targets generalizing start with
  | nil => exact Nat.le_refl _
  | cons target rest ih => exact Nat.le_trans (ih _) (one start target)

-- No other command makes a directory.
theorem run_depth (state : VfsState σ) (command : VfsCommand) (other : ∀ args, command ≠ .mkdir args) :
    depth (state.run fs command).2.vfs.root ≤ depth state.vfs.root := by
  cases command with
  | pwd => exact Nat.le_refl _
  | cd arg =>
    simp only [VfsState.run,cd_root]
    exact Nat.le_refl _
  | ls args => exact Nat.le_refl _
  | cat args => exact Nat.le_refl _
  | mkdir args => exact absurd rfl (other args)
  | touch args =>
    simp only [VfsState.run,VfsState.touch]
    split
    · exact Nat.le_refl _
    · exact targets_depth id _ _ (fun current target => touchTarget_depth fs current target)
  | rm args =>
    simp only [VfsState.run,VfsState.rm]
    split
    · exact Nat.le_refl _
    · exact targets_depth Prod.snd _ _ (fun current target => rmTarget_depth fs _ _ current target)
  | writeFile target content append => exact writeFile_depth fs state target content append

end Commands
end AegisHoneypot.VfsDepth
