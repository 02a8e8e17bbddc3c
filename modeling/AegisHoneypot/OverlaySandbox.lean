import AegisHoneypot.Library.FileTree

namespace AegisHoneypot.OverlaySandbox
open FileTree Utf8Text

-- The three directories of a session stand beside each other below its own.
structure OverlayMount where
  sessionId : Text
  sessionDir : Path
  mountPoint : Path
  upperDir : Path
  workDir : Path
  isMounted : Bool
  upper_inside : upperDir = sessionDir ++ ["upper".toList]
  work_inside : workDir = sessionDir ++ ["work".toList]
  mount_inside : mountPoint = sessionDir ++ ["mount".toList]

def sessionDirOf (overlayBase : Path) (sessionId : Text) : Path :=
  overlayBase ++ ["session_".toList ++ sessionId]

def overlayAt (overlayBase : Path) (sessionId : Text) (isMounted : Bool) : OverlayMount where
  sessionId := sessionId
  sessionDir := sessionDirOf overlayBase sessionId
  mountPoint := sessionDirOf overlayBase sessionId ++ ["mount".toList]
  upperDir := sessionDirOf overlayBase sessionId ++ ["upper".toList]
  workDir := sessionDirOf overlayBase sessionId ++ ["work".toList]
  isMounted := isMounted
  upper_inside := rfl
  work_inside := rfl
  mount_inside := rfl

structure OverlayOptions where
  lowerdir : Path
  upperdir : Path
  workdir : Path
  target : Path

def OverlayMount.options (overlay : OverlayMount) (lowerDir : Path) : OverlayOptions :=
  ⟨lowerDir,overlay.upperDir,overlay.workDir,overlay.mountPoint⟩

-- The overlay file system of the kernel: what is seen below a live mount, and
-- what an operation below it does to the disk.
structure OverlayKernel where
  view : OverlayOptions → Disk → View
  apply : OverlayOptions → Disk → DiskOp → Disk

-- Every write below the mount point lands in the upper directory, with the
-- work directory as the kernel's own scratch space.
def OverlayKernel.Redirects (kernel : OverlayKernel) : Prop :=
  ∀ options disk op path, options.target <+: op.target → ¬ options.upperdir <+: path → ¬ options.workdir <+: path →
    (kernel.apply options disk op).lookup path = disk.lookup path

-- What is deleted through the mount point is deleted from the upper directory.
def OverlayKernel.Deletes (kernel : OverlayKernel) : Prop :=
  ∀ options disk path content, options.upperdir <+: path →
    (kernel.apply options disk (.removeDirAll options.target)).lookup path ≠ some (.file content)

-- The disk and the kernel mount at the mount point of one session: `live` is
-- the lower directory of that mount. It is the kernel's state, which the flag
-- in `OverlayMount` need not agree with.
structure Layer where
  disk : Disk
  live : Option Path

def layerFs (kernel : OverlayKernel) (overlay : OverlayMount) : HostFs Layer where
  view layer := match layer.live with
    | some lowerDir =>
      let mounted := kernel.view (overlay.options lowerDir) layer.disk
      ⟨fun path => if overlay.mountPoint <+: path then mounted.entry path else entry layer.disk path,
        fun path => if overlay.mountPoint <+: path then mounted.names path else names layer.disk path⟩
    | none => plain.view layer.disk
  apply layer op := match layer.live with
    | some lowerDir => if overlay.mountPoint <+: op.target then
        {layer with disk := kernel.apply (overlay.options lowerDir) layer.disk op}
      else {layer with disk := FileTree.apply layer.disk op}
    | none => {layer with disk := FileTree.apply layer.disk op}

-- Which directory of a session cannot be created, and whether the kernel
-- accepts the mount (it needs CAP_SYS_ADMIN).
structure SetupWorld where
  createFails : Path → Bool
  mountAccepted : Bool

inductive SetupError where
  | createDir (path : Path)
  deriving DecidableEq, Repr

def createDirs (createFails : Path → Bool) : List Path → Disk → Except SetupError Unit × Disk
  | [],disk => (.ok (),disk)
  | dir :: rest,disk =>
    if createFails dir then (.error (.createDir dir),disk) else
    let created := createDirAll disk dir
    if isDir created dir then createDirs createFails rest created else (.error (.createDir dir),created)

def OverlayMount.setup (sessionId : Text) (lowerDir overlayBase : Path) (world : SetupWorld) (disk : Disk) :
    Except SetupError OverlayMount × Layer :=
  let overlay := overlayAt overlayBase sessionId world.mountAccepted
  match createDirs world.createFails [overlay.sessionDir,overlay.upperDir,overlay.workDir,overlay.mountPoint] disk with
  | (.error e,created) => (.error e,⟨created,none⟩)
  | (.ok _,created) => (.ok overlay,⟨created,if world.mountAccepted then some lowerDir else none⟩)

def umountAnswer (layer : Layer) (umounts : Bool) : Layer :=
  if umounts then {layer with live := none} else layer

-- The result of `umount` is logged only, and both removals are `let _ =`.
def OverlayMount.teardown (kernel : OverlayKernel) (overlay : OverlayMount) (umounts : Bool) (layer : Layer) :
    Path × OverlayMount × Layer :=
  let released := if overlay.isMounted then umountAnswer layer umounts else layer
  let cleared := (layerFs kernel overlay).apply released (.removeDirAll overlay.mountPoint)
  let finished := (layerFs kernel overlay).apply cleared (.removeDirAll overlay.workDir)
  (overlay.upperDir,{overlay with isMounted := false},finished)

-- `Drop for OverlayMount`
def OverlayMount.dropMount (overlay : OverlayMount) (umounts : Bool) (layer : Layer) : Layer :=
  if overlay.isMounted then umountAnswer layer umounts else layer

-- No child process is ever started, so a handle has none to kill.
structure SandboxHandle where
  sessionId : Text
  overlay : Option OverlayMount
  rootDir : Path

def SandboxHandle.teardown (kernel : OverlayKernel) (sandbox : SandboxHandle) (umounts : Bool) (layer : Layer) :
    Option Path × Layer :=
  match sandbox.overlay with
  | none => (none,layer)
  | some overlay =>
    let done := overlay.teardown kernel umounts layer
    (some done.1,done.2.2)

-- Three writable roots: the live mount, the bare upper directory when the
-- mount was refused, and the golden image itself when `setup` failed. Without a
-- golden image there is no sandbox at all.
def spawnSandbox (rootfsReady : Bool) (setup : Except SetupError OverlayMount) (sessionId : Text) (lowerDir : Path) :
    Option SandboxHandle :=
  if rootfsReady then
    match setup with
    | .ok overlay => some ⟨sessionId,some overlay,if overlay.isMounted then overlay.mountPoint else overlay.upperDir⟩
    | .error _ => some ⟨sessionId,none,lowerDir⟩
  else none

def FilesPreserved (upperDir : Path) (before after : Disk) : Prop :=
  ∀ path content, upperDir <+: path → before.lookup path = some (.file content) → after.lookup path = some (.file content)

theorem siblings_apart (dir : Path) {left right : Text} (differ : left ≠ right) :
    Apart (dir ++ [left]) (dir ++ [right]) := by
  constructor
  · intro given
    obtain ⟨rest,same⟩ := given
    rw [List.append_assoc,List.append_cancel_left_eq] at same
    exact differ (List.cons.inj same).1
  · intro given
    obtain ⟨rest,same⟩ := given
    rw [List.append_assoc,List.append_cancel_left_eq] at same
    exact differ (List.cons.inj same).1.symm

theorem OverlayMount.mount_apart_upper (overlay : OverlayMount) : Apart overlay.mountPoint overlay.upperDir := by
  rw [overlay.mount_inside,overlay.upper_inside]
  exact siblings_apart _ (by decide)

theorem OverlayMount.work_apart_upper (overlay : OverlayMount) : Apart overlay.workDir overlay.upperDir := by
  rw [overlay.work_inside,overlay.upper_inside]
  exact siblings_apart _ (by decide)

theorem OverlayMount.mount_apart_work (overlay : OverlayMount) : Apart overlay.mountPoint overlay.workDir := by
  rw [overlay.mount_inside,overlay.work_inside]
  exact siblings_apart _ (by decide)

theorem clear_work (kernel : OverlayKernel) (overlay : OverlayMount) (layer : Layer) (under : overlay.upperDir <+: path) :
    ((layerFs kernel overlay).apply layer (.removeDirAll overlay.workDir)).disk.lookup path = layer.disk.lookup path := by
  have outside : ¬ overlay.mountPoint <+: (DiskOp.removeDirAll overlay.workDir).target := overlay.mount_apart_work.1
  have kept := apply_apart layer.disk (.removeDirAll overlay.workDir) overlay.work_apart_upper (List.prefix_refl _) under
  unfold layerFs
  dsimp only
  cases layer.live with
  | none => exact kept
  | some lowerDir =>
    dsimp only
    rw [if_neg outside]
    exact kept

theorem clear_mount_released (kernel : OverlayKernel) (overlay : OverlayMount) (layer : Layer)
    (released : layer.live = none) (under : overlay.upperDir <+: path) :
    ((layerFs kernel overlay).apply layer (.removeDirAll overlay.mountPoint)).disk.lookup path =
      layer.disk.lookup path := by
  have kept := apply_apart layer.disk (.removeDirAll overlay.mountPoint) overlay.mount_apart_upper (List.prefix_refl _) under
  simp only [layerFs,released]
  exact kept

theorem clear_mount_live (kernel : OverlayKernel) (deletes : kernel.Deletes) (overlay : OverlayMount) (layer : Layer)
    (live : layer.live = some lowerDir) (under : overlay.upperDir <+: path) (content : Bytes) :
    ((layerFs kernel overlay).apply layer (.removeDirAll overlay.mountPoint)).disk.lookup path ≠
      some (.file content) := by
  have inside : overlay.mountPoint <+: (DiskOp.removeDirAll overlay.mountPoint).target := List.prefix_refl _
  simp only [layerFs,live]
  rw [if_pos inside]
  exact deletes (overlay.options lowerDir) layer.disk path content under

def OverlayMount.released (overlay : OverlayMount) (umounts : Bool) (layer : Layer) : Layer :=
  if overlay.isMounted then umountAnswer layer umounts else layer

theorem released_live (overlay : OverlayMount) (umounts : Bool) (layer : Layer) :
    (overlay.released umounts layer).live = none ↔ layer.live = none ∨ (overlay.isMounted = true ∧ umounts = true) := by
  unfold OverlayMount.released umountAnswer
  cases overlay.isMounted <;> cases umounts <;> simp

theorem released_disk (overlay : OverlayMount) (umounts : Bool) (layer : Layer) :
    (overlay.released umounts layer).disk = layer.disk := by
  unfold OverlayMount.released umountAnswer
  cases overlay.isMounted <;> cases umounts <;> rfl

theorem teardown_lookup (kernel : OverlayKernel) (overlay : OverlayMount) (umounts : Bool) (layer : Layer)
    (under : overlay.upperDir <+: path) :
    (overlay.teardown kernel umounts layer).2.2.disk.lookup path =
      ((layerFs kernel overlay).apply (overlay.released umounts layer) (.removeDirAll overlay.mountPoint)).disk.lookup path :=
  clear_work kernel overlay _ under

theorem teardown_files_exact (kernel : OverlayKernel) (deletes : kernel.Deletes) (overlay : OverlayMount)
    (umounts : Bool) (layer : Layer) :
    FilesPreserved overlay.upperDir layer.disk (overlay.teardown kernel umounts layer).2.2.disk ↔
      layer.live = none ∨ (overlay.isMounted = true ∧ umounts = true) ∨
      ∀ path content, overlay.upperDir <+: path → layer.disk.lookup path ≠ some (.file content) := by
  rw [← or_assoc,← released_live overlay umounts layer]
  constructor
  · intro preserved
    cases live : (overlay.released umounts layer).live with
    | none => exact Or.inl rfl
    | some lowerDir =>
      right
      intro path content under held
      have after := preserved path content under held
      rw [teardown_lookup kernel overlay umounts layer under] at after
      exact clear_mount_live kernel deletes overlay _ live under content after
  · rintro (released | none) path content under held
    · rw [teardown_lookup kernel overlay umounts layer under,
        clear_mount_released kernel overlay _ released under,released_disk]
      exact held
    · exact absurd held (none path content under)

-- An overlay that keeps nothing but what was written through it: paths below
-- the mount point stand for the same paths below the upper directory. The root
-- of the mount itself cannot be removed, only emptied.
def redirected (options : OverlayOptions) (path : Path) : Path := options.upperdir ++ path.drop options.target.length

def redirectedOp (options : OverlayOptions) : DiskOp → DiskOp
  | .createDirAll path => .createDirAll (redirected options path)
  | .createDir path => .createDir (redirected options path)
  | .openCreate path => .openCreate (redirected options path)
  | .append path content => .append (redirected options path) content
  | .write path content => .write (redirected options path) content
  | .removeFile path => .removeFile (redirected options path)
  | .removeDirAll path => .removeDirAll (redirected options path)

def below (place : Path) (disk : Disk) : Disk := disk.retain (fun path _ => decide (place <+: path))
def outside (place : Path) (disk : Disk) : Disk := disk.retain (fun path _ => !decide (place <+: path))

def upperOnly : OverlayKernel where
  view options disk :=
    ⟨fun path => entry disk (redirected options path),fun path => names disk (redirected options path)⟩
  apply options disk op :=
    let emptied := match op with
      | .removeDirAll path => if path = options.target then (∅ : Disk).insert options.upperdir .dir
        else FileTree.apply disk (redirectedOp options op)
      | _ => FileTree.apply disk (redirectedOp options op)
    below options.upperdir emptied ∪ outside options.upperdir disk

theorem lookup_below (place : Path) (disk : Disk) (path : Path) :
    (below place disk).lookup path = if place <+: path then disk.lookup path else none := by
  rw [below,AList.lookup_retain]
  cases disk.lookup path <;> by_cases under : place <+: path <;> simp [Option.filter,under]

theorem lookup_outside (place : Path) (disk : Disk) (path : Path) :
    (outside place disk).lookup path = if place <+: path then none else disk.lookup path := by
  rw [outside,AList.lookup_retain]
  cases disk.lookup path <;> by_cases under : place <+: path <;> simp [Option.filter,under]

theorem upperOnly_redirects : upperOnly.Redirects := by
  intro options disk op path _ apart _
  simp only [upperOnly]
  rw [AList.lookup_union_right,lookup_outside,if_neg apart]
  rw [← AList.lookup_isSome,lookup_below,if_neg apart]
  simp

theorem upperOnly_deletes : upperOnly.Deletes := by
  intro options disk path content under
  simp only [upperOnly,if_true,ne_eq,AList.lookup_union_eq_some,lookup_below,lookup_outside,if_pos under,
    AList.lookup_insert_split]
  intro either
  rcases either with emptied | ⟨_,kept⟩
  · split at emptied
    · cases emptied
    · cases emptied
  · cases kept

-- A captured script, the umount refused, and the mount still live.
def script : Bytes := encode "#!/bin/sh\n".toList
def scriptDirs : Disk :=
  [["upper"],["work"],["mount"]].foldl (fun disk dir => createDirAll disk ("session_7".toList :: dir.map String.toList))
    (createDirAll ∅ ["rootfs".toList])
def scriptLayer : Layer :=
  ⟨scriptDirs.insert ["session_7".toList,"upper".toList,"run.sh".toList] (.file script),some ["rootfs".toList]⟩

theorem failed_umount_deletes_script :
    upperOnly.Deletes ∧ (overlayAt [] "7".toList true).isMounted = true ∧
      ¬ FilesPreserved (overlayAt [] "7".toList true).upperDir scriptLayer.disk
        ((overlayAt [] "7".toList true).teardown upperOnly false scriptLayer).2.2.disk := by
  refine ⟨upperOnly_deletes,rfl,?_⟩
  intro preserved
  have under : (overlayAt [] "7".toList true).upperDir <+: ["session_7".toList,"upper".toList,"run.sh".toList] := by
    decide
  have held : scriptLayer.disk.lookup ["session_7".toList,"upper".toList,"run.sh".toList] = some (.file script) :=
    AList.lookup_insert _
  have after := preserved _ _ under held
  rw [teardown_lookup upperOnly _ false scriptLayer under] at after
  exact clear_mount_live upperOnly upperOnly_deletes _ _ rfl under _ after

theorem files_preserved_after_umount :
    FilesPreserved (overlayAt [] "7".toList true).upperDir scriptLayer.disk
      ((overlayAt [] "7".toList true).teardown upperOnly true scriptLayer).2.2.disk :=
  (teardown_files_exact upperOnly upperOnly_deletes (overlayAt [] "7".toList true) true scriptLayer).mpr
    (Or.inr (Or.inl ⟨rfl,rfl⟩))

end AegisHoneypot.OverlaySandbox
