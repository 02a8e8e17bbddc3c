import AegisHoneypot.PayloadFetch
import AegisHoneypot.VfsConfinement
import AegisHoneypot.Library.Transition

namespace AegisHoneypot.SessionIsolation
open FileTree Utf8Text OverlaySandbox PayloadFetch Vfs Transition

def savePayload (fs : HostFs σ) (state : VfsState σ) (segment : Text) (body : Bytes) : VfsState σ :=
  match state.vfs.mountRoot with
  | none => state
  | some mount => state.apply fs (.write (mount ++ ["root".toList,safeFilename segment]) body)

inductive SessionAction where
  | command (typed : VfsCommand)
  | savePayload (segment : Text) (body : Bytes)

def SessionAction.perform (fs : HostFs σ) (state : VfsState σ) : SessionAction → VfsState σ
  | .command typed => (state.run fs typed).2
  | .savePayload segment body => SessionIsolation.savePayload fs state segment body

inductive SetupOutcome where
  | mounted
  | refused
  | failed (e : SetupError)
  deriving DecidableEq, Repr

def SetupOutcome.isMounted : SetupOutcome → Bool
  | .mounted => true
  | _ => false

def SetupOutcome.isFailed : SetupOutcome → Bool
  | .failed _ => true
  | _ => false

def SetupOutcome.result (outcome : SetupOutcome) (overlayBase : Path) (sessionId : Text) :
    Except SetupError OverlayMount :=
  match outcome with
  | .failed e => .error e
  | _ => .ok (overlayAt overlayBase sessionId outcome.isMounted)

def SetupOutcome.live (outcome : SetupOutcome) (lowerDir : Path) : Option Path :=
  if outcome.isMounted then some lowerDir else none

-- `setup` has no other outcomes.
theorem setup_outcome (sessionId : Text) (lowerDir overlayBase : Path) (world : SetupWorld) (disk : Disk) :
    ∃ outcome : SetupOutcome,
      (OverlayMount.setup sessionId lowerDir overlayBase world disk).1 = outcome.result overlayBase sessionId ∧
      (OverlayMount.setup sessionId lowerDir overlayBase world disk).2.live = outcome.live lowerDir := by
  unfold OverlayMount.setup
  dsimp only
  split
  · rename_i e created _
    exact ⟨.failed e,rfl,rfl⟩
  · cases world.mountAccepted with
    | true => exact ⟨.mounted,rfl,rfl⟩
    | false => exact ⟨.refused,rfl,rfl⟩

inductive Side where
  | left
  | right
  deriving DecidableEq, Repr

def Side.other : Side → Side
  | .left => .right
  | .right => .left

-- Two sessions on one host, each with the outcome of its own `setup`.
structure Pair where
  lowerDir : Path
  overlayBase : Path
  sessionId : Side → Text
  outcome : Side → SetupOutcome

namespace Pair

def overlay (pair : Pair) (side : Side) : OverlayMount :=
  overlayAt pair.overlayBase (pair.sessionId side) (pair.outcome side).isMounted

def live (pair : Pair) (side : Side) : Option Path := (pair.outcome side).live pair.lowerDir

def sandbox (pair : Pair) (side : Side) : Option SandboxHandle :=
  spawnSandbox true ((pair.outcome side).result pair.overlayBase (pair.sessionId side)) (pair.sessionId side) pair.lowerDir

def root (pair : Pair) (side : Side) : Path :=
  match pair.outcome side with
  | .mounted => (pair.overlay side).mountPoint
  | .refused => (pair.overlay side).upperDir
  | .failed _ => pair.lowerDir

end Pair

structure World where
  disk : Disk
  vfs : Side → VirtualFileSystem

def World.start (pair : Pair) (disk : Disk) : World :=
  ⟨disk,fun side => .withRoots ((pair.sandbox side).map SandboxHandle.rootDir) (some pair.lowerDir)⟩

def World.act (kernel : OverlayKernel) (pair : Pair) (world : World) (side : Side) (action : SessionAction) : World :=
  let state := action.perform (layerFs kernel (pair.overlay side)) ⟨world.vfs side,⟨world.disk,pair.live side⟩⟩
  ⟨state.host.disk,Function.update world.vfs side state.vfs⟩

inductive Step (kernel : OverlayKernel) (pair : Pair) : World → Side × SessionAction → World → Prop where
  | act : Step kernel pair world (side,action) (world.act kernel pair side action)

-- What a session must not touch: the golden image and the other's directory.
def Pair.Protected (pair : Pair) (side : Side) (path : Path) : Prop :=
  pair.lowerDir <+: path ∨ (pair.overlay side.other).sessionDir <+: path

def Pair.Isolated (kernel : OverlayKernel) (pair : Pair) : Prop :=
  ∀ disk actions world, Runs (Step kernel pair) (.start pair disk) actions world →
    ∀ side action path, pair.Protected side path →
      (world.act kernel pair side action).disk.lookup path = world.disk.lookup path

theorem rootDir_of_sandbox (pair : Pair) (side : Side) (base : Path)
    (found : (pair.sandbox side).map SandboxHandle.rootDir = some base) : base = pair.root side := by
  unfold Pair.sandbox spawnSandbox at found
  unfold Pair.root Pair.overlay
  cases outcome : pair.outcome side with
  | mounted => simpa [outcome,SetupOutcome.result,SetupOutcome.isMounted,overlayAt] using found.symm
  | refused => simpa [outcome,SetupOutcome.result,SetupOutcome.isMounted,overlayAt] using found.symm
  | failed e => simpa [outcome,SetupOutcome.result] using found.symm

theorem perform_held {fs : HostFs σ} {root : Path} {keep : σ → Prop} {state : VfsState σ} (keeps : Keeps fs root keep)
    (held : Held root keep state) (action : SessionAction) : Held root keep (action.perform fs state) := by
  cases action with
  | command typed => exact run_held keeps held typed
  | savePayload segment body =>
    simp only [SessionAction.perform,savePayload]
    split
    · exact held
    · rename_i mount mounted
      cases held.rooted mount mounted
      exact ⟨keeps _ (.write _ body) (List.prefix_append _ _) held.kept,held.plain,held.rooted⟩

def Ready (pair : Pair) (world : World) : Prop :=
  ∀ side, Plain (world.vfs side).currentPath ∧ ∀ base, (world.vfs side).mountRoot = some base → base = pair.root side

theorem start_ready (pair : Pair) (disk : Disk) : Ready pair (.start pair disk) := by
  intro side
  exact ⟨home_plain,rootDir_of_sandbox pair side⟩

theorem act_held {kernel : OverlayKernel} {pair : Pair} {world : World} (ready : Ready pair world) (side : Side)
    (action : SessionAction) {keep : Layer → Prop} (keeps : Keeps (layerFs kernel (pair.overlay side)) (pair.root side) keep)
    (kept : keep ⟨world.disk,pair.live side⟩) :
    Held (pair.root side) keep
      (action.perform (layerFs kernel (pair.overlay side)) ⟨world.vfs side,⟨world.disk,pair.live side⟩⟩) :=
  perform_held keeps ⟨kept,(ready side).1,(ready side).2⟩ action

theorem act_ready {kernel : OverlayKernel} {pair : Pair} {world : World} (ready : Ready pair world) (side : Side)
    (action : SessionAction) : Ready pair (world.act kernel pair side action) := by
  have held : Held (pair.root side) (fun _ => True)
      (action.perform (layerFs kernel (pair.overlay side)) ⟨world.vfs side,⟨world.disk,pair.live side⟩⟩) :=
    act_held ready side action (fun _ _ _ _ => trivial) trivial
  intro each
  by_cases same : each = side
  · subst each
    simp only [World.act,Function.update_self]
    exact ⟨held.plain,held.rooted⟩
  · simp only [World.act,Function.update_of_ne same]
    exact ready each

structure Pair.Separate (pair : Pair) : Prop where
  layers : Apart pair.lowerDir pair.overlayBase
  sessions : pair.sessionId .left ≠ pair.sessionId .right

theorem Pair.Separate.differ {pair : Pair} (separate : pair.Separate) (side : Side) :
    pair.sessionId side ≠ pair.sessionId side.other := by
  cases side with
  | left => exact separate.sessions
  | right => exact separate.sessions.symm

theorem protected_apart {pair : Pair} (separate : pair.Separate) {side : Side} {path : Path}
    (protected_ : pair.Protected side path) :
    ∃ place, place <+: path ∧ Apart (pair.overlay side).sessionDir place := by
  rcases protected_ with golden | foreign
  · exact ⟨_,golden,separate.layers.symm.extend (List.prefix_append _ _)⟩
  · refine ⟨_,foreign,siblings_apart pair.overlayBase ?_⟩
    intro same
    exact separate.differ side (List.append_cancel_left same)

-- With an overlay of its own, mounted or not, a session writes only there.
theorem root_keeps {kernel : OverlayKernel} (redirects : kernel.Redirects) {pair : Pair} (separate : pair.Separate)
    {side : Side} (sound : (pair.outcome side).isFailed = false) (before : Disk) :
    Keeps (layerFs kernel (pair.overlay side)) (pair.root side) (fun layer => layer.live = pair.live side ∧
      ∀ path, pair.Protected side path → layer.disk.lookup path = before.lookup path) := by
  rintro layer op inside ⟨live,same⟩
  have own : (pair.overlay side).sessionDir <+: (pair.overlay side).upperDir := List.prefix_append _ _
  have work : (pair.overlay side).sessionDir <+: (pair.overlay side).workDir := List.prefix_append _ _
  unfold Pair.root at inside
  unfold Pair.live at live ⊢
  cases outcome : pair.outcome side with
  | failed e => rw [outcome] at sound; cases sound
  | mounted =>
    rw [outcome] at inside live
    have mounted : layer.live = some pair.lowerDir := live
    have moved : (layerFs kernel (pair.overlay side)).apply layer op =
        {layer with disk := kernel.apply ((pair.overlay side).options pair.lowerDir) layer.disk op} := by
      simp only [layerFs,mounted]
      rw [if_pos inside]
    rw [moved]
    refine ⟨live,?_⟩
    intro path protected_
    obtain ⟨place,under,apart⟩ := protected_apart separate protected_
    rw [← same path protected_]
    exact redirects _ _ _ _ inside ((apart.extend own).symm.below under).1 ((apart.extend work).symm.below under).1
  | refused =>
    rw [outcome] at inside live
    have bare : layer.live = none := live
    have moved : (layerFs kernel (pair.overlay side)).apply layer op =
        {layer with disk := FileTree.apply layer.disk op} := by
      simp only [layerFs,bare]
    rw [moved]
    refine ⟨live,?_⟩
    intro path protected_
    obtain ⟨place,under,apart⟩ := protected_apart separate protected_
    rw [← same path protected_]
    exact apply_apart layer.disk op (apart.extend own) inside under

theorem act_isolated {kernel : OverlayKernel} (redirects : kernel.Redirects) {pair : Pair} (separate : pair.Separate)
    {world : World} (ready : Ready pair world) {side : Side} (sound : (pair.outcome side).isFailed = false)
    (action : SessionAction) (protected_ : pair.Protected side path) :
    (world.act kernel pair side action).disk.lookup path = world.disk.lookup path :=
  (act_held ready side action (root_keeps redirects separate sound world.disk) ⟨rfl,fun _ _ => rfl⟩).kept.2 path protected_

-- A session whose `setup` failed has the golden image for its root: its first
-- payload is saved there.
def goldenDisk (pair : Pair) : Disk := createDirAll ∅ (pair.lowerDir ++ ["root".toList])

def goldenIndex (pair : Pair) : Path := pair.lowerDir ++ ["root".toList,"index.html".toList]

theorem goldenIndex_absent (pair : Pair) : (goldenDisk pair).lookup (goldenIndex pair) = none := by
  have deeper : ¬ goldenIndex pair <+: pair.lowerDir ++ ["root".toList] := by
    intro above
    have bounded := above.length_le
    simp [goldenIndex] at bounded
  rw [goldenDisk,createDirAll_empty,ensureDirs_frame]
  · rfl
  · rw [List.mem_inits]
    exact deeper

theorem goldenIndex_written (pair : Pair) (body : Bytes) :
    (FileTree.apply (goldenDisk pair) (.write (goldenIndex pair) body)).lookup (goldenIndex pair) = some (.file body) := by
  have new : entry (goldenDisk pair) (goldenIndex pair) = none := by
    rw [entry,if_neg (by simp [goldenIndex]),goldenIndex_absent]
  have above : (goldenIndex pair).dropLast = pair.lowerDir ++ ["root".toList] :=
    List.dropLast_append_of_ne_nil (List.cons_ne_nil _ _)
  have parent : isDir (goldenDisk pair) (goldenIndex pair).dropLast = true := by
    rw [above,goldenDisk,createDirAll_empty]
    exact ensureDirs_made ∅ _ (by simp [entry]) (by simp)
  simp only [FileTree.apply,writeThrough,new,createAt,parent,if_true,AList.lookup_insert]

theorem failed_saves_in_golden (kernel : OverlayKernel) (pair : Pair) (side : Side) (body : Bytes)
    (failed : (pair.outcome side).isFailed = true) :
    ((World.start pair (goldenDisk pair)).act kernel pair side (.savePayload [] body)).disk.lookup (goldenIndex pair) =
      some (.file body) := by
  obtain ⟨e,outcome⟩ : ∃ e, pair.outcome side = .failed e := by
    cases outcome : pair.outcome side with
    | failed e => exact ⟨e,rfl⟩
    | mounted => rw [outcome] at failed; cases failed
    | refused => rw [outcome] at failed; cases failed
  have mount : ((World.start pair (goldenDisk pair)).vfs side).mountRoot = some pair.lowerDir := by
    simp [World.start,VirtualFileSystem.withRoots,Pair.sandbox,spawnSandbox,outcome,SetupOutcome.result]
  have bare : pair.live side = none := by simp [Pair.live,outcome,SetupOutcome.live,SetupOutcome.isMounted]
  have name : safeFilename [] = "index.html".toList := rfl
  simp only [World.act,SessionAction.perform,savePayload,mount,name,VfsState.apply,layerFs,bare]
  exact goldenIndex_written pair body

theorem failed_not_isolated (kernel : OverlayKernel) (pair : Pair) (side : Side)
    (failed : (pair.outcome side).isFailed = true) : ¬ pair.Isolated kernel := by
  intro isolated
  have golden : pair.Protected side (goldenIndex pair) := Or.inl (List.prefix_append _ _)
  have same := isolated (goldenDisk pair) [] _ .nil side (.savePayload [] []) _ golden
  rw [failed_saves_in_golden kernel pair side [] failed] at same
  exact absurd (same.trans (goldenIndex_absent pair)) (by simp)

theorem isolation_exact (kernel : OverlayKernel) (redirects : kernel.Redirects) (pair : Pair) (separate : pair.Separate) :
    pair.Isolated kernel ↔ ∀ side, (pair.outcome side).isFailed = false := by
  constructor
  · intro isolated side
    cases failed : (pair.outcome side).isFailed with
    | false => rfl
    | true => exact absurd isolated (failed_not_isolated kernel pair side failed)
  · intro sound disk actions world path side action place protected_
    have ready : Ready pair world := Runs.preserves (start_ready pair disk) (fun _ _ _ ready taken => by
      cases taken
      exact act_ready ready _ _) path
    exact act_isolated redirects separate ready (sound side) action protected_

-- One session mounted, one with a full disk under its directory.
def mountedAnd (outcome : SetupOutcome) : Pair where
  lowerDir := ["rootfs".toList]
  overlayBase := ["overlay".toList]
  sessionId side := match side with
    | .left => "3f9a".toList
    | .right => "77b0".toList
  outcome side := match side with
    | .left => .mounted
    | .right => outcome

theorem mountedAnd_separate (outcome : SetupOutcome) : (mountedAnd outcome).Separate :=
  ⟨⟨by simp [mountedAnd],by simp [mountedAnd]⟩,by simp [mountedAnd]⟩

theorem mounted_and_refused_isolated : (mountedAnd .refused).Isolated upperOnly :=
  (isolation_exact upperOnly upperOnly_redirects (mountedAnd .refused) (mountedAnd_separate .refused)).mpr
    (fun side => by cases side <;> rfl)

-- The second session's payload appears in the image that both sessions read.
def diskFull : Pair := mountedAnd (.failed (.createDir ["overlay".toList,"session_77b0".toList]))

theorem failed_setup_writes_golden :
    upperOnly.Redirects ∧ diskFull.Separate ∧
      (World.start diskFull (goldenDisk diskFull)).disk.lookup ["rootfs".toList,"root".toList,"index.html".toList] = none ∧
      ((World.start diskFull (goldenDisk diskFull)).act upperOnly diskFull .right (.savePayload [] script)).disk.lookup
        ["rootfs".toList,"root".toList,"index.html".toList] = some (.file script) ∧
      ¬ diskFull.Isolated upperOnly :=
  ⟨upperOnly_redirects,mountedAnd_separate _,goldenIndex_absent diskFull,
    failed_saves_in_golden upperOnly diskFull .right script rfl,failed_not_isolated upperOnly diskFull .right rfl⟩

end AegisHoneypot.SessionIsolation
