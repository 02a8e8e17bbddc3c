import AegisHoneypot.VfsTree
import AegisHoneypot.Library.TreeShape

-- What a session shows at a path: the writable layer first, then the golden
-- image, then the in-memory tree.
namespace AegisHoneypot.MergedView
open FileTree Utf8Text VfsNode Vfs VfsTree VfsDepth

inductive Sight where
  | dir
  | file (content : Bytes)
  | denied
  deriving DecidableEq, Repr

def ofEntry : Entry → Sight
  | .dir => .dir
  | .file content => .file content

def ofLook : Look → Sight
  | .dir _ => .dir
  | .file node => if node.permissionDenied then .denied else .file (encode node.content)

section Layers
variable (view : View) (vfs : VirtualFileSystem) (parts : Path)

def upper : Option Entry := VirtualFileSystem.layerEntry view (vfs.resolveUpperPath parts)

def lower : Option Entry := VirtualFileSystem.layerEntry view (vfs.resolveLowerPath parts)

def memory : Option Sight := (lookAt vfs.root parts).map ofLook

def beneath : Option Sight := ((lower view vfs parts).map ofEntry).or (memory vfs parts)

-- The root is a directory whatever the layers hold.
def merged : Option Sight :=
  if parts = [] then some .dir else ((upper view vfs parts).map ofEntry).or (beneath view vfs parts)

end Layers

def Sight.text : Sight → Option Text
  | .file content => fromUtf8 content
  | _ => none

theorem merged_named (view : View) (vfs : VirtualFileSystem) (named : parts ≠ []) :
    merged view vfs parts = ((upper view vfs parts).map ofEntry).or (beneath view vfs parts) := if_neg named

theorem merged_upper (named : parts ≠ []) (held : upper view vfs parts = some present) :
    merged view vfs parts = some (ofEntry present) := by
  rw [merged_named view vfs named,held]
  rfl

theorem memory_node (vfs : VirtualFileSystem) (parts : Path) :
    memory vfs parts = (vfs.root.getNodeSafe parts).map (fun node => ofLook (look node)) := by
  rw [memory,lookAt,Option.map_map]
  rfl

section Tree
variable {σ : Type} {state : VfsState σ} {parts : Path}

theorem memory_parent (named : parts ≠ []) (found : state.parentDir parts = some children) :
    memory state.vfs parts = (children.get (VfsState.baseName parts)).map (fun node => ofLook (look node)) := by
  rw [memory_node,getNodeSafe_parent state.vfs.root named,show state.vfs.root.getDir parts.dropLast = some children from found]
  rfl

theorem memory_orphan (named : parts ≠ []) (lost : state.parentDir parts = none) : memory state.vfs parts = none := by
  rw [memory_node,getNodeSafe_parent state.vfs.root named,show state.vfs.root.getDir parts.dropLast = none from lost]
  rfl

end Tree

theorem ofLook_dir : ofLook shown = .dir ↔ ∃ perms, shown = .dir perms := by
  rcases shown with perms | ⟨content,perms,denied⟩
  · simp [ofLook]
  · cases denied <;> simp [ofLook]

-- The same session, but for the content of its tree.
structure SameRoots (before after : VirtualFileSystem) : Prop where
  currentPath : after.currentPath = before.currentPath
  mountRoot : after.mountRoot = before.mountRoot
  lowerRoot : after.lowerRoot = before.lowerRoot

theorem SameRoots.refl (vfs : VirtualFileSystem) : SameRoots vfs vfs := ⟨rfl,rfl,rfl⟩

theorem SameRoots.trans (first : SameRoots before middle) (second : SameRoots middle after) : SameRoots before after :=
  ⟨second.currentPath.trans first.currentPath,second.mountRoot.trans first.mountRoot,second.lowerRoot.trans first.lowerRoot⟩

theorem SameRoots.upperPath (same : SameRoots before after) (parts : Path) :
    after.resolveUpperPath parts = before.resolveUpperPath parts := by
  rw [VirtualFileSystem.resolveUpperPath,VirtualFileSystem.resolveUpperPath,same.mountRoot]

theorem SameRoots.lowerPath (same : SameRoots before after) (parts : Path) :
    after.resolveLowerPath parts = before.resolveLowerPath parts := by
  rw [VirtualFileSystem.resolveLowerPath,VirtualFileSystem.resolveLowerPath,same.lowerRoot]

theorem SameRoots.resolve (same : SameRoots before after) (path : Text) : after.resolve path = before.resolve path := by
  rw [VirtualFileSystem.resolve,VirtualFileSystem.resolve,same.currentPath]

theorem setParent_roots (state : VfsState σ) (parts : Path) (changed : Children) :
    SameRoots state.vfs (state.setParent parts changed).vfs := ⟨rfl,rfl,rfl⟩

section Roots
variable {σ : Type} (fs : HostFs σ)

theorem same_roots (same : after = before) : SameRoots before after := same ▸ SameRoots.refl before

theorem mkdirTarget_roots (parents : Bool) (current : Text × VfsState σ) (target : Text) :
    SameRoots current.2.vfs (VfsState.mkdirTarget fs parents current target).2.vfs := by
  have inTree : ∀ (parts : Path) (output : Text) (state : VfsState σ), state.vfs = current.2.vfs →
      SameRoots current.2.vfs (VfsState.mkdirMemory parents target parts output state).2.vfs := by
    intro parts output state same
    unfold VfsState.mkdirMemory
    split
    · exact (same_roots same).trans ⟨rfl,rfl,rfl⟩
    · split
      · split
        · exact same_roots same
        · exact (same_roots same).trans (setParent_roots _ _ _)
      · exact same_roots same
  unfold VfsState.mkdirTarget
  dsimp only
  split
  · exact SameRoots.refl _
  · split
    · exact inTree _ _ _ rfl
    · split
      · exact inTree _ _ _ rfl
      · split
        · exact SameRoots.refl _
        · split
          · exact inTree _ _ _ rfl
          · exact inTree _ _ _ (createParents_vfs fs _ _)

theorem touchTarget_roots (state : VfsState σ) (target : Text) :
    SameRoots state.vfs (VfsState.touchTarget fs state target).vfs := by
  unfold VfsState.touchTarget
  dsimp only
  split
  · exact SameRoots.refl _
  · have same := same_roots (written_vfs fs state (state.vfs.resolve target) .openCreate)
    split
    · split
      · exact same
      · exact same.trans (setParent_roots _ _ _)
    · exact same

theorem rmTarget_roots (recursive force : Bool) (current : Text × VfsState σ) (target : Text) :
    SameRoots current.2.vfs (VfsState.rmTarget fs recursive force current target).2.vfs := by
  have inTree : ∀ (parts : Path) (output : Text) (state : VfsState σ), state.vfs = current.2.vfs →
      SameRoots current.2.vfs (VfsState.rmMemory recursive force target parts output state).2.vfs := by
    intro parts output state same
    unfold VfsState.rmMemory
    split
    · exact same_roots same
    · split
      · exact same_roots same
      · exact (same_roots same).trans (setParent_roots _ _ _)
      · exact same_roots same
  unfold VfsState.rmTarget
  dsimp only
  split
  · exact SameRoots.refl _
  · split
    · exact inTree _ _ _ rfl
    · split
      · exact SameRoots.refl _
      · rename_i removed done
        exact inTree _ _ _ (rmDisk_vfs fs recursive force _ _ done)

theorem writeFile_roots (state : VfsState σ) (target content : Text) (append : Bool) :
    SameRoots state.vfs (VfsState.writeFile fs state target content append).2.vfs := by
  unfold VfsState.writeFile
  dsimp only
  split
  · exact SameRoots.refl _
  · have same := same_roots (written_vfs fs state (state.vfs.resolve target)
      (fun upper => if append then .append upper (encode content) else .write upper (encode content)))
    split
    · exact same
    · exact same.trans (setParent_roots _ _ _)

theorem targets_roots {step : α → Text → α} (state : α → VfsState σ) (targets : List Text) (start : α)
    (one : ∀ current target, SameRoots (state current).vfs (state (step current target)).vfs) :
    SameRoots (state start).vfs (state (targets.foldl step start)).vfs := by
  induction targets generalizing start with
  | nil => exact SameRoots.refl _
  | cons target rest ih => exact (one start target).trans (ih _)

-- Only `cd` moves, and no command touches the roots.
theorem run_roots (state : VfsState σ) (command : VfsCommand) :
    (state.run fs command).2.vfs.mountRoot = state.vfs.mountRoot ∧ (state.run fs command).2.vfs.lowerRoot = state.vfs.lowerRoot := by
  have both : ∀ after : VfsState σ, SameRoots state.vfs after.vfs →
      after.vfs.mountRoot = state.vfs.mountRoot ∧ after.vfs.lowerRoot = state.vfs.lowerRoot :=
    fun after same => ⟨same.mountRoot,same.lowerRoot⟩
  cases command with
  | pwd => exact ⟨rfl,rfl⟩
  | cd arg =>
    simp only [VfsState.run]
    unfold VirtualFileSystem.cd
    dsimp only
    repeat' split
    all_goals exact ⟨rfl,rfl⟩
  | ls args => exact ⟨rfl,rfl⟩
  | cat args => exact ⟨rfl,rfl⟩
  | mkdir args =>
    simp only [VfsState.run,VfsState.mkdir]
    split
    · exact ⟨rfl,rfl⟩
    · exact both _ (targets_roots Prod.snd _ ([],state) (mkdirTarget_roots fs _))
  | touch args =>
    simp only [VfsState.run,VfsState.touch]
    split
    · exact ⟨rfl,rfl⟩
    · exact both _ (targets_roots id _ state (touchTarget_roots fs))
  | rm args =>
    simp only [VfsState.run,VfsState.rm]
    split
    · exact ⟨rfl,rfl⟩
    · exact both _ (targets_roots Prod.snd _ ([],state) (rmTarget_roots fs _ _))
  | writeFile target content append => exact both _ (writeFile_roots fs state target content append)

end Roots

-- The layers are searched in this order by `cd`, which tells directories, files
-- and missing paths apart and nothing else.
inductive CdAnswer where
  | entered
  | notADirectory
  | noSuchFile
  deriving DecidableEq, Repr

def CdAnswer.text (arg : Text) : CdAnswer → Text
  | .entered => []
  | .notADirectory => "bash: cd: ".toList ++ arg ++ ": Not a directory\r\n".toList
  | .noSuchFile => "bash: cd: ".toList ++ arg ++ ": No such file or directory\r\n".toList

def cdAnswer : Option Sight → CdAnswer
  | some .dir => .entered
  | some _ => .notADirectory
  | none => .noSuchFile

theorem cd_answer (view : View) (vfs : VirtualFileSystem) (arg : Text) (named : arg.trim ≠ []) :
    (vfs.cd view arg).1 = (cdAnswer (merged view vfs (vfs.resolve arg.trim))).text arg.trim := by
  unfold VirtualFileSystem.cd
  dsimp only
  rw [if_neg named]
  generalize arg.trim = given
  generalize vfs.resolve given = parts
  by_cases root : parts = []
  · rw [if_pos root,root]
    rfl
  · rw [if_neg root,merged_named view vfs root,beneath,memory_node]
    unfold upper lower
    cases VirtualFileSystem.layerEntry view (vfs.resolveUpperPath parts) with
    | some held => cases held <;> rfl
    | none =>
      cases VirtualFileSystem.layerEntry view (vfs.resolveLowerPath parts) with
      | some held => cases held <;> rfl
      | none =>
        cases vfs.root.getNodeSafe parts with
        | none => rfl
        | some node =>
          cases node with
          | dir perms children => rfl
          | file node =>
            obtain ⟨content,perms,denied⟩ := node
            cases denied <;> rfl

-- A session on a disk. Its layers may be any two places there, and they are one
-- and the same place when its directories could not be made.
structure Layered (state : VfsState Disk) : Prop where
  shaped : Shaped state.host
  placed : Plain state.vfs.currentPath

section Layered
variable {state : VfsState Disk}

theorem Layered.run (layered : Layered state) (command : VfsCommand) : Layered (state.run FileTree.plain command).2 := by
  have held : Held (state.vfs.mountRoot.getD []) Shaped state := by
    refine ⟨layered.shaped,layered.placed,?_⟩
    intro base mounted
    rw [mounted]
    rfl
  have survives : Survives FileTree.plain (state.vfs.mountRoot.getD []) Shaped := fun _ op _ shaped => apply_shaped shaped op
  have after := run_survives survives held command
  exact ⟨after.kept,after.plain⟩

theorem Layered.runs (layered : Layered state) (commands : List VfsCommand) :
    Layered (Vfs.runs FileTree.plain commands state) := by
  induction commands generalizing state with
  | nil => exact layered
  | cons command rest ih => exact ih (layered.run command)

theorem upperPath_plain {vfs : VirtualFileSystem} (mounted : vfs.mountRoot = some base) (plainParts : Plain parts) :
    vfs.resolveUpperPath parts = some (base ++ parts) := by
  rw [VirtualFileSystem.resolveUpperPath,mounted,Option.map_some,diskPath_plain plainParts]

theorem lowerPath_plain {vfs : VirtualFileSystem} (imaged : vfs.lowerRoot = some low) (plainParts : Plain parts) :
    vfs.resolveLowerPath parts = some (low ++ parts) := by
  rw [VirtualFileSystem.resolveLowerPath,imaged,Option.map_some,diskPath_plain plainParts]

theorem Layered.upperPath (layered : Layered state) (mounted : state.vfs.mountRoot = some base) (target : Text) :
    state.vfs.resolveUpperPath (state.vfs.resolve target) = some (base ++ state.vfs.resolve target) := by
  exact upperPath_plain mounted (resolve_plain state.vfs layered.placed target)

theorem upper_entry (mounted : vfs.mountRoot = some base) (plainParts : Plain parts) :
    upper (plain.view disk) vfs parts = entry disk (base ++ parts) := by
  rw [upper,upperPath_plain mounted plainParts]
  rfl

theorem upper_unmounted (unmounted : vfs.mountRoot = none) (view : View) (parts : Path) : upper view vfs parts = none := by
  rw [upper,VirtualFileSystem.resolveUpperPath,unmounted]
  rfl

end Layered

theorem quoted_some (command target reason : String) (name : Text) (spoken : command.toList ≠ []) :
    VfsState.quoted command target reason name ≠ [] := by
  simp [VfsState.quoted,spoken]

-- The layers of a session on a disk.
def upperAt (state : VfsState Disk) (parts : Path) : Option Entry := upper (plain.view state.host) state.vfs parts
def lowerAt (state : VfsState Disk) (parts : Path) : Option Entry := lower (plain.view state.host) state.vfs parts
def mergedAt (state : VfsState Disk) (parts : Path) : Option Sight := merged (plain.view state.host) state.vfs parts
def beneathAt (state : VfsState Disk) (parts : Path) : Option Sight := beneath (plain.view state.host) state.vfs parts

theorem mergedAt_named (state : VfsState Disk) (named : parts ≠ []) :
    mergedAt state parts = ((upperAt state parts).map ofEntry).or (beneathAt state parts) := if_neg named

theorem mergedAt_none {state : VfsState Disk} (named : parts ≠ []) : mergedAt state parts = none ↔
    upperAt state parts = none ∧ lowerAt state parts = none ∧ memory state.vfs parts = none := by
  rw [mergedAt,merged_named _ _ named,beneath,Option.or_eq_none_iff,Option.or_eq_none_iff,Option.map_eq_none_iff,
    Option.map_eq_none_iff]
  rfl

-- A new session in the directory fallback, on a disk made by some operations.
def sandbox (ops : List DiskOp) : VfsState Disk :=
  ⟨VirtualFileSystem.withRoots (some ["upper".toList]) (some ["rootfs".toList]),ops.foldl FileTree.apply ∅⟩

theorem sandbox_layered (ops : List DiskOp) : Layered (sandbox ops) := ⟨built_shaped empty_shaped ops,home_plain⟩

-- One whose directories could not be made works on the golden image itself.
def unsandboxed (ops : List DiskOp) : VfsState Disk :=
  ⟨VirtualFileSystem.withRoots (some ["rootfs".toList]) (some ["rootfs".toList]),ops.foldl FileTree.apply ∅⟩

theorem unsandboxed_layered (ops : List DiskOp) : Layered (unsandboxed ops) := ⟨built_shaped empty_shaped ops,home_plain⟩

-- There both layers hold the same.
theorem lowerAt_same {state : VfsState Disk} (same : state.vfs.lowerRoot = state.vfs.mountRoot) (parts : Path) :
    lowerAt state parts = upperAt state parts := by
  unfold lowerAt upperAt lower upper VirtualFileSystem.resolveLowerPath VirtualFileSystem.resolveUpperPath
  rw [same]

end AegisHoneypot.MergedView
