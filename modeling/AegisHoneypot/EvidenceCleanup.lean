import AegisHoneypot.SessionHandler

namespace AegisHoneypot.EvidenceCleanup
open FileTree Utf8Text GatewayHost OverlaySandbox Forensics PayloadFetch SessionHandler Chronicle

-- What the listing of the overlay base returns: how many entries it gives
-- before it ends or fails, for which of them the type is known, and which
-- directories without an upper directory can be removed.
structure ReclaimIo where
  reads : Bool
  listed : Nat
  typed : Path → Bool
  removes : Path → Bool

def sessionMark : Text := "session_".toList

-- One entry of the overlay base. A mount left from the previous run is
-- unmounted where that succeeds, which changes nothing on the disk.
def reclaimEntry (io : ReclaimIo) (overlayBase : Path) (state : List (Text × Path) × Disk) (name : Text) :
    List (Text × Path) × Disk :=
  let path := overlayBase ++ [name]
  if sessionMark <+: name ∧ io.typed path = true ∧ isDir state.2 path = true then
    let upper := path ++ ["upper".toList]
    if isDir state.2 upper then (state.1 ++ [(name.drop sessionMark.length,upper)],state.2)
    else (state.1,if io.removes path then FileTree.apply state.2 (.removeDirAll path) else state.2)
  else state

def reclaimOrphanedSessions (io : ReclaimIo) (overlayBase : Path) (disk : Disk) : List (Text × Path) × Disk :=
  if io.reads then ((names disk overlayBase).take io.listed).foldl (reclaimEntry io overlayBase) ([],disk) else ([],disk)

-- The source address of an orphan is not known any more.
def orphanInfo (sessionId : Text) : SessionMeta := ⟨String.ofList sessionId,.v4 0 0 0 0,0⟩

def reclaimLoop (platform : Platform) (engine : ForensicsEngine) (io : Path → CleanupIo) (orphans : List (Text × Path))
    (host : Host) : Host :=
  orphans.foldl (fun host orphan => cleanUp platform engine (orphanInfo orphan.1) (io orphan.2) orphan.2 host) host

-- A session directory may go once every file worth keeping has been copied.
def Secured (engine : ForensicsEngine) : List Effect → Effect → Prop
  | past,.removed upperDir disk => ∀ path data, IsEvidence engine disk upperDir path data → Copied past path data
  | _,_ => True

-- The removal does not happen, or each such file was copied before or is
-- copied by this pass.
def Spared (engine : ForensicsEngine) (io : CleanupIo) (upperDir : Path) (host : Host) : Prop :=
  io.removes = false ∨ ∀ path data, IsEvidence engine host.layer.disk upperDir path data →
    Copied host.log path data ∨ Kept io.forensics path

theorem capture_secured (engine : ForensicsEngine) (past : List Effect) (captured : IsCapture effect) :
    Secured engine past effect := by
  cases effect with
  | removed upperDir disk => cases captured
  | _ => trivial

section Cleanup
variable (platform : Platform) (engine : ForensicsEngine) (info : SessionMeta)

theorem analyzed_secured (io : ForensicsIo) (upperDir : Path) (host : Host) :
    Clean (Secured engine) (analyzeUpperdir platform.sha256 engine info io upperDir host).2.log ↔
      Clean (Secured engine) host.log := by
  obtain ⟨new,same,captures⟩ := analyzeUpperdir_grows platform.sha256 engine info io upperDir host
  rw [same,clean_append]
  have free : CleanAfter (Secured engine) host.log new :=
    cleanAfter_free _ _ (fun effect member past => capture_secured engine past (captures effect member))
  exact ⟨And.left,fun clean => ⟨clean,free⟩⟩

theorem cleanUp_secured (io : CleanupIo) (upperDir : Path) (named : upperDir ≠ []) (host : Host) :
    Clean (Secured engine) (cleanUp platform engine info io upperDir host).log ↔
      Clean (Secured engine) host.log ∧ Spared engine io upperDir host := by
  unfold cleanUp removeSessionDir Spared
  cases removes : io.removes with
  | false => simp [analyzed_secured]
  | true =>
    simp only [named,false_or,Bool.true_eq_false,if_false,Host.note_log,clean_append,analyzed_secured,CleanAfter,
      and_true,Secured,analyzeUpperdir_layer]
    apply and_congr_right
    intro _
    constructor
    · intro copied path data evidence
      exact (analyzeUpperdir_copied platform.sha256 engine info io.forensics upperDir host evidence).mp
        (copied path data evidence)
    · intro spared path data evidence
      exact (analyzeUpperdir_copied platform.sha256 engine info io.forensics upperDir host evidence).mpr
        (spared path data evidence)

-- Cleaning up one session leaves the files of another, and what is known about
-- their copies, as they were.
theorem cleanUp_lookup (io : CleanupIo) (upperDir : Path) (host : Host) (apart : Apart upperDir.dropLast place)
    (under : place <+: path) :
    (cleanUp platform engine info io upperDir host).layer.disk.lookup path = host.layer.disk.lookup path := by
  unfold cleanUp removeSessionDir
  split
  · rw [analyzeUpperdir_layer]
  · simp only [Host.note_layer,analyzeUpperdir_layer]
    exact apply_apart host.layer.disk (.removeDirAll upperDir.dropLast) apart (List.prefix_refl _) under

theorem cleanUp_copied (io : CleanupIo) (upperDir : Path) (host : Host) (outside : ¬ upperDir <+: path) (data : Bytes) :
    Copied (cleanUp platform engine info io upperDir host).log path data ↔ Copied host.log path data := by
  unfold cleanUp removeSessionDir
  split
  · exact analyzeUpperdir_other platform.sha256 engine info io.forensics upperDir host outside data
  · simp only [Host.note_log]
    rw [copied_note,analyzeUpperdir_other platform.sha256 engine info io.forensics upperDir host outside]
    simp

theorem cleanUp_spares (io other : CleanupIo) (upperDir upper : Path) (host : Host)
    (apart : Apart upperDir.dropLast upper.dropLast) :
    Spared engine other upper (cleanUp platform engine info io upperDir host) ↔ Spared engine other upper host := by
  have evidence : ∀ path data, IsEvidence engine (cleanUp platform engine info io upperDir host).layer.disk upper path data ↔
      IsEvidence engine host.layer.disk upper path data := by
    intro path data
    constructor
    · intro found
      have same := cleanUp_lookup platform engine info io upperDir host apart
        ((List.dropLast_prefix upper).trans found.inside)
      exact ⟨found.inside,same ▸ found.held,found.some_,found.small,found.magic⟩
    · intro found
      have same := cleanUp_lookup platform engine info io upperDir host apart
        ((List.dropLast_prefix upper).trans found.inside)
      exact ⟨found.inside,same.trans found.held,found.some_,found.small,found.magic⟩
  have copied : ∀ path data, upper <+: path →
      (Copied (cleanUp platform engine info io upperDir host).log path data ↔ Copied host.log path data) := by
    intro path data inside
    apply cleanUp_copied
    intro nested
    have below := apart.symm.below ((List.dropLast_prefix upper).trans inside)
    exact below.1 ((List.dropLast_prefix upperDir).trans nested)
  unfold Spared
  apply or_congr_right
  constructor
  · intro spared path data found
    rw [← copied path data found.inside]
    exact spared path data ((evidence path data).mpr found)
  · intro spared path data found
    rw [copied path data found.inside]
    exact spared path data ((evidence path data).mp found)

-- Orphans have directories of their own, so what the loop finds in one does not
-- depend on those before it.
theorem reclaimLoop_secured (io : Path → CleanupIo) (orphans : List (Text × Path)) (host : Host)
    (named : ∀ orphan ∈ orphans, orphan.2 ≠ [])
    (separate : orphans.Pairwise (fun left right => Apart left.2.dropLast right.2.dropLast)) :
    Clean (Secured engine) (reclaimLoop platform engine io orphans host).log ↔
      Clean (Secured engine) host.log ∧ ∀ orphan ∈ orphans, Spared engine (io orphan.2) orphan.2 host := by
  induction orphans generalizing host with
  | nil => simp [reclaimLoop]
  | cons orphan rest ih =>
    rw [List.forall_mem_cons] at named
    rw [List.pairwise_cons] at separate
    have later : ∀ other ∈ rest, Spared engine (io other.2) other.2
        (cleanUp platform engine (orphanInfo orphan.1) (io orphan.2) orphan.2 host) ↔
        Spared engine (io other.2) other.2 host :=
      fun other member => cleanUp_spares platform engine _ _ _ orphan.2 other.2 host (separate.1 other member)
    change Clean _ (reclaimLoop platform engine io rest
      (cleanUp platform engine (orphanInfo orphan.1) (io orphan.2) orphan.2 host)).log ↔ _
    rw [ih _ named.2 separate.2,cleanUp_secured platform engine _ _ _ named.1,forall₂_congr later,List.forall_mem_cons,
      and_assoc]

end Cleanup

theorem names_nodup (disk : Disk) (path : Path) : (names disk path).Nodup := by
  unfold names
  apply List.Nodup.filterMap _ disk.keys_nodup
  intro left right name leftNamed rightNamed
  split at leftNamed
  · rename_i leftIn
    split at rightNamed
    · rename_i rightIn
      have leftSplit := List.dropLast_append_getLast? name leftNamed
      have rightSplit := List.dropLast_append_getLast? name rightNamed
      rw [← leftSplit,← rightSplit,leftIn.2,rightIn.2]
    · cases rightNamed
  · cases leftNamed

def orphanUpper (overlayBase : Path) (name : Text) : Path := overlayBase ++ [name] ++ ["upper".toList]

theorem reclaimed_uppers (io : ReclaimIo) (overlayBase : Path) (listed : List Text) (orphans : List (Text × Path))
    (disk : Disk) : ∃ found : List Text, found.Sublist listed ∧
      (listed.foldl (reclaimEntry io overlayBase) (orphans,disk)).1.map Prod.snd =
        orphans.map Prod.snd ++ found.map (orphanUpper overlayBase) := by
  induction listed generalizing orphans disk with
  | nil => exact ⟨[],List.Sublist.refl _,by simp⟩
  | cons name rest ih =>
    rw [List.foldl_cons]
    cases step : reclaimEntry io overlayBase (orphans,disk) name with
    | mk kept left =>
      obtain ⟨found,sub,same⟩ := ih kept left
      have added : kept = orphans ∨ kept.map Prod.snd = orphans.map Prod.snd ++ [orphanUpper overlayBase name] := by
        unfold reclaimEntry at step
        dsimp only at step
        split at step
        · split at step
          · cases step
            exact Or.inr (by simp [orphanUpper])
          · cases step
            exact Or.inl rfl
        · cases step
          exact Or.inl rfl
      rcases added with rfl | grown
      · exact ⟨found,sub.cons name,same⟩
      · refine ⟨name :: found,sub.cons_cons name,?_⟩
        rw [same,grown]
        simp

theorem orphans_uppers (io : ReclaimIo) (overlayBase : Path) (disk : Disk) : ∃ found : List Text, found.Nodup ∧
    (reclaimOrphanedSessions io overlayBase disk).1.map Prod.snd = found.map (orphanUpper overlayBase) := by
  unfold reclaimOrphanedSessions
  split
  · obtain ⟨found,sub,same⟩ := reclaimed_uppers io overlayBase ((names disk overlayBase).take io.listed) [] disk
    refine ⟨found,?_,by simpa using same⟩
    exact (sub.trans (List.take_sublist _ _)).nodup (names_nodup disk overlayBase)
  · exact ⟨[],List.nodup_nil,rfl⟩

theorem orphans_named (io : ReclaimIo) (overlayBase : Path) (disk : Disk) :
    ∀ orphan ∈ (reclaimOrphanedSessions io overlayBase disk).1, orphan.2 ≠ [] := by
  obtain ⟨found,_,same⟩ := orphans_uppers io overlayBase disk
  intro orphan member
  have upper : orphan.2 ∈ found.map (orphanUpper overlayBase) := same ▸ List.mem_map_of_mem member
  obtain ⟨name,_,shape⟩ := List.mem_map.mp upper
  rw [← shape]
  simp [orphanUpper]

theorem orphans_separate (io : ReclaimIo) (overlayBase : Path) (disk : Disk) :
    (reclaimOrphanedSessions io overlayBase disk).1.Pairwise
      (fun left right => Apart left.2.dropLast right.2.dropLast) := by
  obtain ⟨found,distinct,same⟩ := orphans_uppers io overlayBase disk
  have uppers : (found.map (orphanUpper overlayBase)).Pairwise (fun left right => Apart left.dropLast right.dropLast) := by
    rw [List.pairwise_map]
    apply distinct.imp
    intro left right differ
    simp only [orphanUpper,List.dropLast_concat]
    exact siblings_apart overlayBase differ
  rw [← same,List.pairwise_map] at uppers
  exact uppers

def releasedHost (platform : Platform) (umounts : Bool) (overlay : OverlayMount) (host : Host) : Host :=
  {host with layer := (overlay.teardown platform.kernel umounts host.layer).2.2}

theorem finishSandbox_secured (platform : Platform) (engine : ForensicsEngine) (info : SessionMeta) (io : TeardownIo)
    (sandbox : SandboxHandle) (host : Host) :
    Clean (Secured engine) (finishSandbox platform engine info io sandbox host).log ↔
      Clean (Secured engine) host.log ∧ ∀ overlay, sandbox.overlay = some overlay →
        Spared engine io.cleanup overlay.upperDir (releasedHost platform io.umounts overlay host) := by
  unfold finishSandbox sandboxReleased SandboxHandle.teardown
  cases held : sandbox.overlay with
  | none => simp
  | some overlay =>
    have named : overlay.upperDir ≠ [] := by simp [overlay.upper_inside]
    simp only [Option.some.injEq,forall_eq']
    exact cleanUp_secured platform engine info io.cleanup overlay.upperDir named
      (releasedHost platform io.umounts overlay host)

theorem announced_spares (platform : Platform) (engine : ForensicsEngine) (io : TeardownIo) (info : SessionMeta)
    (overlay : OverlayMount) (host : Host) :
    Spared engine io.cleanup overlay.upperDir (releasedHost platform io.umounts overlay (announceEnd io info host)) ↔
      Spared engine io.cleanup overlay.upperDir (releasedHost platform io.umounts overlay host) := by
  have copied : ∀ path data, Copied (announceEnd io info host).log path data ↔ Copied host.log path data := by
    intro path data
    simp only [announceEnd,Host.note_log]
    rw [copied_note,copied_note]
    simp
  unfold Spared releasedHost
  simp only [copied]
  rfl

def pendingOverlay (session : ActiveSession) : Option OverlayMount :=
  if session.isEnded then none else session.sandbox.bind SandboxHandle.overlay

theorem teardownSession_secured (platform : Platform) (io : TeardownIo) (session : ActiveSession) (host : Host) :
    Clean (Secured session.forensics) (teardownSession platform io session host).2.log ↔
      Clean (Secured session.forensics) host.log ∧ ∀ overlay, pendingOverlay session = some overlay →
        Spared session.forensics io.cleanup overlay.upperDir (releasedHost platform io.umounts overlay host) := by
  have announced : Clean (Secured session.forensics) (announceEnd io session.info host).log ↔
      Clean (Secured session.forensics) host.log := by
    simp [announceEnd,clean_append,CleanAfter,Secured]
  unfold teardownSession pendingOverlay
  split
  · simp
  · cases session.sandbox with
    | none => simpa using announced
    | some sandbox =>
      simp only [finishSandbox_secured,announced,announced_spares]
      rfl

theorem dropSession_secured (platform : Platform) (io : TeardownIo) (runtime : Bool) (session : ActiveSession)
    (host : Host) :
    Clean (Secured session.forensics) (dropSession platform io runtime session host).log ↔
      Clean (Secured session.forensics) host.log ∧ (runtime = true → ∀ overlay, pendingOverlay session = some overlay →
        Spared session.forensics io.cleanup overlay.upperDir (releasedHost platform io.umounts overlay host)) := by
  unfold dropSession pendingOverlay
  split
  · simp
  · cases session.sandbox with
    | none => simp
    | some sandbox =>
      cases runtime with
      | true => simpa using finishSandbox_secured platform session.forensics session.info io sandbox host
      | false =>
        simp only [Bool.false_eq_true,if_false,false_implies,and_true]
        cases sandbox.overlay <;> rfl

-- The three places that remove a session directory.
inductive Cleaner where
  | teardownSession (session : ActiveSession) (io : TeardownIo)
  | dropSession (session : ActiveSession) (io : TeardownIo) (runtime : Bool)
  | reclaim (engine : ForensicsEngine) (overlayBase : Path) (listing : ReclaimIo) (io : Path → CleanupIo)

namespace Cleaner

def engine : Cleaner → ForensicsEngine
  | teardownSession session _ => session.forensics
  | dropSession session _ _ => session.forensics
  | reclaim engine _ _ _ => engine

def listedHost (listing : ReclaimIo) (overlayBase : Path) (host : Host) : Host :=
  {host with layer := {host.layer with disk := (reclaimOrphanedSessions listing overlayBase host.layer.disk).2}}

def run (platform : Platform) (cleaner : Cleaner) (host : Host) : Host :=
  match cleaner with
  | teardownSession session io => (SessionHandler.teardownSession platform io session host).2
  | dropSession session io runtime => SessionHandler.dropSession platform io runtime session host
  | reclaim engine overlayBase listing io => reclaimLoop platform engine io
      (reclaimOrphanedSessions listing overlayBase host.layer.disk).1 (listedHost listing overlayBase host)

def Spares (platform : Platform) (cleaner : Cleaner) (host : Host) : Prop :=
  match cleaner with
  | teardownSession session io => ∀ overlay, pendingOverlay session = some overlay →
      Spared session.forensics io.cleanup overlay.upperDir (releasedHost platform io.umounts overlay host)
  | dropSession session io runtime => runtime = true → ∀ overlay, pendingOverlay session = some overlay →
      Spared session.forensics io.cleanup overlay.upperDir (releasedHost platform io.umounts overlay host)
  | reclaim engine overlayBase listing io =>
      ∀ orphan ∈ (reclaimOrphanedSessions listing overlayBase host.layer.disk).1,
        Spared engine (io orphan.2) orphan.2 (listedHost listing overlayBase host)

end Cleaner

-- A caller adds no removal that is out of order exactly when it spares what it
-- has not copied.
theorem evidence_kept_exact (platform : Platform) (cleaner : Cleaner) (host : Host) :
    Clean (Secured cleaner.engine) (cleaner.run platform host).log ↔
      Clean (Secured cleaner.engine) host.log ∧ cleaner.Spares platform host := by
  cases cleaner with
  | teardownSession session io => exact teardownSession_secured platform io session host
  | dropSession session io runtime => exact dropSession_secured platform io runtime session host
  | reclaim engine overlayBase listing io =>
    exact reclaimLoop_secured platform engine io _ (Cleaner.listedHost listing overlayBase host)
      (orphans_named listing overlayBase host.layer.disk) (orphans_separate listing overlayBase host.layer.disk)

-- A session without a kernel mount that has left one script behind, on a host
-- that cannot create the quarantine directory.
def scriptPath : Path := ["session_7".toList,"upper".toList,"run.sh".toList]

def scriptOverlay : OverlayMount := overlayAt [] "7".toList false

def scriptPlatform : Platform where
  kernel := upperOnly
  overlay := scriptOverlay
  sha256 _ := "a8076d3d28d21e02012b20eaf7dbf75409a6277134439025f282e368e3305abf".toList
  parseUrl _ := none
  geoip _ := none

def scriptSession : ActiveSession :=
  newClient ⟨"7",.v4 198 51 100 45,40022⟩ ⟨"./quarantine".toList,false,0,0⟩ ⟨"./quarantine".toList,6,33554432⟩
    (some ⟨"7".toList,some scriptOverlay,scriptOverlay.upperDir⟩) ["rootfs".toList]

def scriptHost : Host := ⟨⟨scriptLayer.disk,none⟩,[]⟩

def refusedIo : TeardownIo :=
  ⟨0,0,true,⟨⟨false,fun _ => true,fun _ => ⟨true,true,true,true,true,0⟩⟩,true⟩⟩

theorem script_evidence : IsEvidence scriptSession.forensics
    (releasedHost scriptPlatform true scriptOverlay scriptHost).layer.disk scriptOverlay.upperDir scriptPath script := by
  have inside : scriptOverlay.upperDir <+: scriptPath := by decide
  refine ⟨inside,?_,by decide,by decide,Or.inr (Or.inr (by decide))⟩
  change (scriptOverlay.teardown upperOnly true scriptHost.layer).2.2.disk.lookup scriptPath = _
  rw [teardown_lookup upperOnly scriptOverlay true scriptHost.layer inside,
    clear_mount_released upperOnly scriptOverlay _ rfl inside,released_disk]
  exact AList.lookup_insert _

theorem refused_quarantine_loses_script :
    Clean (Secured scriptSession.forensics) scriptHost.log ∧ ¬ Clean (Secured scriptSession.forensics)
      ((Cleaner.teardownSession scriptSession refusedIo).run scriptPlatform scriptHost).log := by
  refine ⟨trivial,?_⟩
  intro clean
  have spared := ((teardownSession_secured scriptPlatform refusedIo scriptSession scriptHost).mp clean).2
  rcases spared scriptOverlay rfl with standing | kept
  · cases standing
  · rcases kept scriptPath script script_evidence with ⟨_,copied⟩ | kept
    · cases copied
    · cases kept.1

end AegisHoneypot.EvidenceCleanup
