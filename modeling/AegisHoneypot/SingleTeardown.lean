import AegisHoneypot.InputAutomaton

-- The sandbox of a session passes through several hands that may all take it
-- down. Every function on the way stands here once more, with what it does to
-- the sandbox listed beside its result.
namespace AegisHoneypot.SingleTeardown
open FileTree Utf8Text GatewayHost OverlaySandbox Vfs Forensics PayloadFetch SessionHandler SessionInput SessionSilence
open SessionEnding InputAutomaton Chronicle VfsHosts

-- A removal is listed when it is asked for: its result is dropped, as that of
-- `umount` is.
inductive Deed where
  | umount (mountPoint : Path)
  | tornDown (upperDir : Path)
  | analysed (upperDir : Path)
  | removed (sessionDir : Path)
  deriving DecidableEq, Repr

namespace Watched

def umounted (overlay : OverlayMount) : List Deed := if overlay.isMounted then [.umount overlay.mountPoint] else []

def overlayTeardown (kernel : OverlayKernel) (umounts : Bool) (overlay : OverlayMount) (layer : Layer) :
    (Path × OverlayMount × Layer) × List Deed :=
  (overlay.teardown kernel umounts layer,umounted overlay ++ [.tornDown overlay.upperDir])

def overlayDrop (umounts : Bool) (overlay : OverlayMount) (layer : Layer) : Layer × List Deed :=
  (overlay.dropMount umounts layer,umounted overlay)

-- The overlay taken out of the handle is dropped where `teardown` ends.
def sandboxTeardown (kernel : OverlayKernel) (umounts : Bool) (sandbox : SandboxHandle) (layer : Layer) :
    (Option Path × Layer) × List Deed :=
  match sandbox.overlay with
  | none => ((none,layer),[])
  | some overlay =>
    let done := overlayTeardown kernel umounts overlay layer
    let dropped := overlayDrop umounts done.1.2.1 done.1.2.2
    ((some done.1.1,dropped.1),done.2 ++ dropped.2)

def sandboxDrop (umounts : Bool) (sandbox : Option SandboxHandle) (host : Host) : Host × List Deed :=
  match sandbox.bind SandboxHandle.overlay with
  | none => (host,[])
  | some overlay =>
    let dropped := overlayDrop umounts overlay host.layer
    ({host with layer := dropped.1},dropped.2)

section Teardown
variable (platform : Platform)

def cleanUp (engine : ForensicsEngine) (info : SessionMeta) (io : CleanupIo) (upperDir : Path) (host : Host) :
    Host × List Deed :=
  let analysed := (analyzeUpperdir platform.sha256 engine info io.forensics upperDir host).2
  (removeSessionDir io.removes upperDir analysed,
    .analysed upperDir :: if upperDir = [] then [] else [.removed upperDir.dropLast])

def finishSandbox (engine : ForensicsEngine) (info : SessionMeta) (io : TeardownIo) (sandbox : SandboxHandle) (host : Host) :
    Host × List Deed :=
  match sandboxTeardown platform.kernel io.umounts sandbox host.layer with
  | ((none,layer),deeds) => ({host with layer := layer},deeds)
  | ((some upperDir,layer),deeds) =>
    let cleaned := cleanUp platform engine info io.cleanup upperDir {host with layer := layer}
    (cleaned.1,deeds ++ cleaned.2)

def teardownSession (io : TeardownIo) (session : ActiveSession) (host : Host) : (ActiveSession × Host) × List Deed :=
  if session.isEnded then ((session,host),[]) else
  let announced := announceEnd io session.info host
  match session.sandbox with
  | none => (({session with isEnded := true},announced),[])
  | some sandbox =>
    let finished := finishSandbox platform session.forensics session.info io sandbox announced
    (({session with isEnded := true,sandbox := none},finished.1),finished.2)

-- The fields are dropped behind `drop`, and a sandbox still among them.
def dropSession (io : TeardownIo) (runtime : Bool) (session : ActiveSession) (host : Host) : Host × List Deed :=
  if session.isEnded then sandboxDrop io.umounts session.sandbox host else
  match session.sandbox with
  | none => (host,[])
  | some sandbox =>
    if runtime then finishSandbox platform session.forensics session.info io sandbox host
    else sandboxDrop io.umounts (some sandbox) host

def teardown (io : TeardownIo) (world : World) : World × List Deed :=
  let done := teardownSession platform io world.session world.host
  ({world with session := done.1.1,host := done.1.2},done.2)

end Teardown

def quiet (result : Flow × World) : (Flow × World) × List Deed := (result,[])

def andThen (result : (Flow × World) × List Deed) (rest : World → (Flow × World) × List Deed) : (Flow × World) × List Deed :=
  match result with
  | ((.next,world),deeds) => ((rest world).1,deeds ++ (rest world).2)
  | stopped => stopped

section Data
variable (platform : Platform) (io : ByteIo)

def sayGoodbye (logout : Bool) (world : World) : (Flow × World) × List Deed :=
  andThen (quiet (sendOutput logout "logout\r\n".toList world)) fun world =>
    if io.closes then
      let done := teardown platform io.teardown (world.note .channelClosed)
      ((.next,done.1),done.2)
    else quiet (.failed,world)

def runCommand (cmd : Text) (world : World) : (Flow × World) × List Deed :=
  let told := (world.note (.recorded .input (cmd ++ ['\n']))).note
    (.emitted (.commandRun (commandEvent io world.session.info cmd)))
  if cmd.trim = "exit".toList ∨ cmd.trim = "logout".toList then
    andThen (sayGoodbye platform io (io.writes 1) told) fun world => quiet (.returned,world)
  else
    let answer := respond platform io cmd told
    andThen (quiet (sendOutput (io.writes 1) answer.1 answer.2)) fun world => quiet (sendPrompt (io.writes 2) world)

def endLine (world : World) : (Flow × World) × List Deed :=
  andThen (quiet (sendOutput (io.writes 0) Text.crlf world)) fun world =>
    let cmd := world.session.cmdBuffer.trim
    let cleared := world.update (fun session => {session with cmdBuffer := []})
    if cmd = [] then quiet (sendPrompt (io.writes 1) cleared) else runCommand platform io cmd cleared

def endOfInput (world : World) : (Flow × World) × List Deed :=
  if world.session.cmdBuffer = [] then sayGoodbye platform io (io.writes 0) world else quiet (.next,world)

def dataByte (byte : UInt8) (world : World) : (Flow × World) × List Deed :=
  let seen := world.update (fun session => {session with lastByte := byte})
  if byte = 0x1b then quiet (.next,seen.update (fun session => {session with escapeSeq := true,escapeLen := 0}))
  else if world.session.escapeSeq then quiet (.next,world.update (escaped byte))
  else if byte = 0x0d ∨ byte = 0x0a then
    if byte = 0x0a ∧ world.session.lastByte = 0x0d then quiet (.next,seen) else endLine platform io seen
  else if byte = 0x7f ∨ byte = 0x08 then quiet (eraseLast io seen)
  else if byte = 0x03 then quiet (interrupt io seen)
  else if byte = 0x04 then endOfInput platform io seen
  else if isPrintable byte then quiet (typed io byte seen)
  else quiet (.next,seen)

end Data

def dataLoop (platform : Platform) : List (UInt8 × ByteIo) → World → (Flow × World) × List Deed
  | [],world => quiet (.next,world)
  | (byte,io) :: rest,world => andThen (dataByte platform io byte world) (dataLoop platform rest)

def data (platform : Platform) (bytes : List (UInt8 × ByteIo)) (world : World) : (Bool × World) × List Deed :=
  match dataLoop platform bytes world with
  | ((.next,world),deeds) => ((true,world.note .recorderFlushed),deeds)
  | ((.returned,world),deeds) => ((true,world),deeds)
  | ((.failed,world),deeds) => ((false,world),deeds)

def perform (platform : Platform) (world : World) : Callback → World × List Deed
  | .data bytes => ((data platform bytes world).1.2,(data platform bytes world).2)
  | .channelClose io => teardown platform io world
  | other => (SessionInput.perform platform world other,[])

def run (platform : Platform) : List Callback → World → World × List Deed
  | [],world => (world,[])
  | callback :: rest,world =>
    let done := perform platform world callback
    let later := run platform rest done.1
    (later.1,done.2 ++ later.2)

-- A session from its first callback to the drop of its handler.
def life (platform : Platform) (callbacks : List Callback) (io : TeardownIo) (runtime : Bool) (world : World) : Host × List Deed :=
  let ran := run platform callbacks world
  let dropped := dropSession platform io runtime ran.1.session ran.1.host
  (dropped.1,ran.2 ++ dropped.2)

end Watched

-- Without the lists these are the functions of the session.
section Erasure
variable (platform : Platform)

theorem sandboxTeardown_erases (kernel : OverlayKernel) (umounts : Bool) (sandbox : SandboxHandle) (layer : Layer) :
    (Watched.sandboxTeardown kernel umounts sandbox layer).1 = sandbox.teardown kernel umounts layer := by
  unfold Watched.sandboxTeardown SandboxHandle.teardown
  cases sandbox.overlay with
  | none => rfl
  | some overlay => rfl

theorem finishSandbox_erases (engine : ForensicsEngine) (info : SessionMeta) (io : TeardownIo) (sandbox : SandboxHandle)
    (host : Host) : (Watched.finishSandbox platform engine info io sandbox host).1 =
      finishSandbox platform engine info io sandbox host := by
  have erased := sandboxTeardown_erases platform.kernel io.umounts sandbox host.layer
  unfold Watched.finishSandbox finishSandbox sandboxReleased
  rw [← erased]
  generalize Watched.sandboxTeardown platform.kernel io.umounts sandbox host.layer = done
  obtain ⟨⟨upper,layer⟩,deeds⟩ := done
  cases upper with
  | none => rfl
  | some upperDir => rfl

theorem teardown_erases (io : TeardownIo) (world : World) :
    (Watched.teardown platform io world).1 = teardown platform io world := by
  unfold Watched.teardown teardown Watched.teardownSession teardownSession
  split
  · rfl
  · cases world.session.sandbox with
    | none => rfl
    | some sandbox =>
      dsimp only
      rw [finishSandbox_erases]

theorem dropSession_erases (io : TeardownIo) (runtime : Bool) (session : ActiveSession) (host : Host)
    (given : session.isEnded = true → session.sandbox = none) :
    (Watched.dropSession platform io runtime session host).1 = dropSession platform io runtime session host := by
  unfold Watched.dropSession dropSession
  split
  · rename_i ended
    rw [given ended]
    rfl
  · cases session.sandbox with
    | none => rfl
    | some sandbox =>
      dsimp only
      split
      · exact finishSandbox_erases platform _ _ io sandbox host
      · unfold Watched.sandboxDrop
        rw [Option.bind_some]
        cases sandbox.overlay with
        | none => rfl
        | some overlay => rfl

theorem andThen_erases (result : (Flow × World) × List Deed) (rest : World → (Flow × World) × List Deed)
    (plain : World → Flow × World) (same : ∀ world, (rest world).1 = plain world) :
    (Watched.andThen result rest).1 = andThen result.1 plain := by
  obtain ⟨⟨flow,world⟩,deeds⟩ := result
  cases flow with
  | next => exact same world
  | returned => rfl
  | failed => rfl

section Bytes
variable (io : ByteIo)

theorem sayGoodbye_erases (logout : Bool) (world : World) :
    (Watched.sayGoodbye platform io logout world).1 = sayGoodbye platform io logout world := by
  refine andThen_erases _ _ _ ?_
  intro middle
  split
  · exact congrArg (Prod.mk Flow.next) (teardown_erases platform io.teardown _)
  · rfl

theorem runCommand_erases (cmd : Text) (world : World) :
    (Watched.runCommand platform io cmd world).1 = runCommand platform io cmd world := by
  unfold Watched.runCommand runCommand
  dsimp only
  split
  · rw [andThen_erases _ _ (fun world => (.returned,world)) (fun _ => rfl),sayGoodbye_erases]
  · exact andThen_erases _ _ _ (fun _ => rfl)

theorem endLine_erases (world : World) : (Watched.endLine platform io world).1 = endLine platform io world := by
  refine andThen_erases _ _ _ ?_
  intro middle
  dsimp only
  split
  · rfl
  · exact runCommand_erases platform io _ _

theorem endOfInput_erases (world : World) : (Watched.endOfInput platform io world).1 = endOfInput platform io world := by
  unfold Watched.endOfInput endOfInput
  split
  · exact sayGoodbye_erases platform io _ world
  · rfl

theorem dataByte_erases (byte : UInt8) (world : World) :
    (Watched.dataByte platform io byte world).1 = dataByte platform io byte world := by
  unfold Watched.dataByte dataByte
  dsimp only
  split
  · rfl
  · split
    · rfl
    · split
      · split
        · rfl
        · exact endLine_erases platform io _
      · split
        · rfl
        · split
          · rfl
          · split
            · exact endOfInput_erases platform io _
            · split
              · rfl
              · rfl

end Bytes

theorem dataLoop_erases (bytes : List (UInt8 × ByteIo)) (world : World) :
    (Watched.dataLoop platform bytes world).1 = dataLoop platform bytes world := by
  induction bytes generalizing world with
  | nil => rfl
  | cons received rest ih =>
    obtain ⟨byte,io⟩ := received
    unfold Watched.dataLoop dataLoop
    rw [andThen_erases _ _ _ ih,dataByte_erases]

theorem perform_erases (callback : Callback) (world : World) :
    (Watched.perform platform world callback).1 = perform platform world callback := by
  cases callback with
  | data bytes =>
    change (Watched.data platform bytes world).1.2 = (SessionInput.data platform bytes world).2
    unfold Watched.data SessionInput.data
    rw [← dataLoop_erases]
    generalize Watched.dataLoop platform bytes world = looped
    obtain ⟨⟨flow,after⟩,deeds⟩ := looped
    cases flow with
    | next => rfl
    | returned => rfl
    | failed => rfl
  | channelClose io => exact teardown_erases platform io world
  | _ => rfl

theorem run_erases (callbacks : List Callback) (world : World) :
    (Watched.run platform callbacks world).1 = run platform callbacks world := by
  induction callbacks generalizing world with
  | nil => rfl
  | cons callback rest ih =>
    change (Watched.run platform rest (Watched.perform platform world callback).1).1 = _
    rw [ih,perform_erases]
    rfl

end Erasure

-- The session directories that a log removes, and those that the deeds ask to
-- remove.
def removals (log : List Effect) : List Path := log.filterMap fun
  | .removed upperDir _ => some upperDir.dropLast
  | _ => none

def asked (deeds : List Deed) : List Path := deeds.filterMap fun
  | .removed sessionDir => some sessionDir
  | _ => none

-- The list of deeds against what the host has logged: no directory goes that
-- the deeds do not remove, and no file is copied that a listed pass did not walk.
structure Tied (deeds : List Deed) (log : List Effect) : Prop where
  removed : (removals log).Sublist (asked deeds)
  analysed : ∀ path content, Copied log path content → ∃ upperDir, .analysed upperDir ∈ deeds ∧ upperDir <+: path

def Elsewhere : Effect → Prop
  | .removed _ _ => False
  | .quarantined (some _) _ _ => False
  | _ => True

theorem removals_append (log new : List Effect) : removals (log ++ new) = removals log ++ removals new :=
  List.filterMap_append ..

theorem asked_append (deeds more : List Deed) : asked (deeds ++ more) = asked deeds ++ asked more :=
  List.filterMap_append ..

theorem removals_none (new : List Effect) (none_ : ∀ effect ∈ new, ∀ upperDir disk, effect ≠ .removed upperDir disk) :
    removals new = [] := by
  refine List.filterMap_eq_nil_iff.mpr ?_
  intro effect member
  cases effect with
  | removed upperDir disk => exact absurd rfl (none_ _ member upperDir disk)
  | _ => rfl

theorem Tied.nil : Tied [] [] := ⟨List.Sublist.refl _,fun _ _ ⟨_,member⟩ => nomatch member⟩

theorem Tied.grows (tied : Tied deeds before) (grows : Grows Elsewhere before after) : Tied deeds after := by
  obtain ⟨new,rfl,elsewhere⟩ := grows
  have none_ : removals new = [] := by
    refine removals_none new ?_
    rintro _ member upperDir disk rfl
    exact elsewhere _ member
  refine ⟨?_,?_⟩
  · rw [removals_append,none_,List.append_nil]
    exact tied.removed
  · rintro path content ⟨target,member⟩
    rcases List.mem_append.mp member with old | late
    · exact tied.analysed path content ⟨target,old⟩
    · exact absurd (elsewhere _ late) id

theorem Tied.more (tied : Tied deeds log) (later : List Deed) : Tied (deeds ++ later) log := by
  refine ⟨?_,?_⟩
  · rw [asked_append]
    exact tied.removed.trans (List.sublist_append_left _ _)
  · intro path content copied
    obtain ⟨upperDir,listed,inside⟩ := tied.analysed path content copied
    exact ⟨upperDir,List.mem_append_left _ listed,inside⟩

section Ties
variable (platform : Platform) (engine : ForensicsEngine) (info : SessionMeta)

-- The pass over an upper directory copies what lies in it.
theorem analyzeUpperdir_tied (io : ForensicsIo) (upperDir : Path) (host : Host) (tied : Tied deeds host.log) :
    Tied (deeds ++ [.analysed upperDir]) (analyzeUpperdir platform.sha256 engine info io upperDir host).2.log := by
  obtain ⟨new,same,captures⟩ := analyzeUpperdir_grows platform.sha256 engine info io upperDir host
  have none_ : removals new = [] := by
    refine removals_none new ?_
    rintro _ member _ _ rfl
    exact captures _ member
  refine ⟨?_,?_⟩
  · rw [same,removals_append,none_,List.append_nil]
    exact (tied.more _).removed
  · intro path content copied
    by_cases inside : upperDir <+: path
    · exact ⟨upperDir,by simp,inside⟩
    · exact (tied.more _).analysed path content
        ((analyzeUpperdir_other platform.sha256 engine info io upperDir host inside content).mp copied)

theorem cleanUp_tied (io : CleanupIo) (upperDir : Path) (host : Host) (tied : Tied deeds host.log) :
    Tied (deeds ++ (Watched.cleanUp platform engine info io upperDir host).2)
      (Watched.cleanUp platform engine info io upperDir host).1.log := by
  have passed := analyzeUpperdir_tied platform engine info io.forensics upperDir host tied
  have listed : deeds ++ (Watched.cleanUp platform engine info io upperDir host).2 =
      (deeds ++ [.analysed upperDir]) ++ if upperDir = [] then [] else [.removed upperDir.dropLast] := by
    rw [List.append_assoc]
    rfl
  rw [listed]
  unfold Watched.cleanUp removeSessionDir
  dsimp only
  by_cases stays : upperDir = [] ∨ io.removes = false
  · rw [if_pos stays]
    exact passed.more _
  · rw [if_neg stays,if_neg (fun unnamed => stays (Or.inl unnamed))]
    refine ⟨?_,?_⟩
    · rw [Host.note_log,removals_append,asked_append]
      exact passed.removed.append (List.Sublist.refl _)
    · intro path content copied
      rw [Host.note_log,copied_note] at copied
      exact (passed.more _).analysed path content (copied.resolve_right nofun)

theorem finishSandbox_tied (io : TeardownIo) (sandbox : SandboxHandle) (host : Host) (tied : Tied deeds host.log) :
    Tied (deeds ++ (Watched.finishSandbox platform engine info io sandbox host).2)
      (Watched.finishSandbox platform engine info io sandbox host).1.log := by
  unfold Watched.finishSandbox
  generalize Watched.sandboxTeardown platform.kernel io.umounts sandbox host.layer = done
  obtain ⟨⟨upper,layer⟩,released⟩ := done
  cases upper with
  | none => exact tied.more released
  | some upperDir =>
    dsimp only
    rw [← List.append_assoc]
    exact cleanUp_tied platform engine info io.cleanup upperDir {host with layer := layer} (tied.more released)

theorem announceEnd_tied (io : TeardownIo) (host : Host) (tied : Tied deeds host.log) :
    Tied deeds (announceEnd io info host).log :=
  tied.grows ((Grows.one _ trivial).trans (Grows.one _ trivial))

theorem sandboxDrop_log (umounts : Bool) (sandbox : Option SandboxHandle) (host : Host) :
    (Watched.sandboxDrop umounts sandbox host).1.log = host.log := by
  unfold Watched.sandboxDrop
  cases sandbox.bind SandboxHandle.overlay with
  | none => rfl
  | some overlay => rfl

theorem dropSession_tied (io : TeardownIo) (runtime : Bool) (session : ActiveSession) (host : Host)
    (tied : Tied deeds host.log) : Tied (deeds ++ (Watched.dropSession platform io runtime session host).2)
      (Watched.dropSession platform io runtime session host).1.log := by
  have dropped : ∀ held, Tied (deeds ++ (Watched.sandboxDrop io.umounts held host).2)
      (Watched.sandboxDrop io.umounts held host).1.log := by
    intro held
    rw [sandboxDrop_log]
    exact tied.more _
  unfold Watched.dropSession
  split
  · exact dropped session.sandbox
  · cases session.sandbox with
    | none => exact tied.more []
    | some sandbox =>
      dsimp only
      split
      · exact finishSandbox_tied platform session.forensics session.info io sandbox host tied
      · exact dropped (some sandbox)

end Ties

-- All that is ever done to a sandbox, in order.
def ending (overlay : OverlayMount) : List Deed :=
  Watched.umounted overlay ++ [.tornDown overlay.upperDir,.analysed overlay.upperDir,.removed overlay.sessionDir]

-- The session owns its sandbox and nothing has been done to it, or everything
-- has and the session owns it no more.
inductive Stage (overlay : OverlayMount) (past : List Deed) (world : World) : Prop where
  | owned (sessionId : Text) (rootDir : Path) : world.session.isEnded = false →
      world.session.sandbox = some ⟨sessionId,some overlay,rootDir⟩ → past = [] → Tied past world.host.log →
      Stage overlay past world
  | released : world.session.isEnded = true → world.session.sandbox = none → past = ending overlay →
      Tied past world.host.log → Stage overlay past world

structure Keeps (before after : World) : Prop where
  ended : after.session.isEnded = before.session.isEnded
  sandbox : after.session.sandbox = before.session.sandbox
  log : Grows Elsewhere before.host.log after.host.log

theorem Keeps.refl (world : World) : Keeps world world := ⟨rfl,rfl,Grows.refl _ _⟩

theorem Keeps.trans (first : Keeps before middle) (second : Keeps middle after) : Keeps before after :=
  ⟨second.ended.trans first.ended,second.sandbox.trans first.sandbox,first.log.trans second.log⟩

theorem Keeps.note (world : World) (elsewhere : Elsewhere effect) : Keeps world (world.note effect) :=
  ⟨rfl,rfl,Grows.one _ elsewhere⟩

theorem Keeps.update (world : World) (change : ActiveSession → ActiveSession)
    (ended : (change world.session).isEnded = world.session.isEnded)
    (sandbox : (change world.session).sandbox = world.session.sandbox) : Keeps world (world.update change) :=
  ⟨ended,sandbox,Grows.refl _ _⟩

theorem Keeps.unchanged (same : after.session = before.session) (log : Grows Elsewhere before.host.log after.host.log) :
    Keeps before after := by
  refine ⟨?_,?_,log⟩
  · rw [same]
  · rw [same]

theorem Stage.tied (stage : Stage overlay past world) : Tied past world.host.log := by
  cases stage with
  | owned _ _ _ _ _ tied => exact tied
  | released _ _ _ tied => exact tied

theorem Stage.keeps (stage : Stage overlay past before) (keeps : Keeps before after) : Stage overlay past after := by
  have tied := stage.tied.grows keeps.log
  cases stage with
  | owned sessionId rootDir active held fresh _ =>
    exact .owned sessionId rootDir (keeps.ended.trans active) (keeps.sandbox.trans held) fresh tied
  | released ended gone done _ => exact .released (keeps.ended.trans ended) (keeps.sandbox.trans gone) done tied

theorem fetch_elsewhere (effect : Effect) (fetched : IsFetch effect) : Elsewhere effect := by
  unfold Elsewhere
  split
  · exact fetched
  · exact fetched
  · trivial

theorem download_elsewhere (effect : Effect) (downloads : IsDownload effect) : Elsewhere effect := by
  unfold Elsewhere
  split
  · exact downloads
  · exact downloads
  · trivial

section Stages
variable (platform : Platform)

theorem finishSandbox_deeds (engine : ForensicsEngine) (info : SessionMeta) (io : TeardownIo) (sessionId : Text)
    (overlay : OverlayMount) (rootDir : Path) (host : Host) :
    (Watched.finishSandbox platform engine info io ⟨sessionId,some overlay,rootDir⟩ host).2 = ending overlay := by
  have named : overlay.upperDir ≠ [] := by simp [overlay.upper_inside]
  have parent : overlay.upperDir.dropLast = overlay.sessionDir := by
    rw [overlay.upper_inside,List.dropLast_concat]
  -- The overlay that `teardown` leaves is no longer mounted, so its drop does nothing.
  have settled : (Watched.sandboxTeardown platform.kernel io.umounts ⟨sessionId,some overlay,rootDir⟩ host.layer).2 =
      Watched.umounted overlay ++ [.tornDown overlay.upperDir] := List.append_nil _
  change (Watched.sandboxTeardown platform.kernel io.umounts ⟨sessionId,some overlay,rootDir⟩ host.layer).2 ++
    (.analysed overlay.upperDir :: if overlay.upperDir = [] then [] else [.removed overlay.upperDir.dropLast]) = _
  rw [settled,if_neg named,parent,List.append_assoc]
  rfl

theorem teardown_stage (io : TeardownIo) (stage : Stage overlay past world) :
    Stage overlay (past ++ (Watched.teardown platform io world).2) (Watched.teardown platform io world).1 := by
  have announced := announceEnd_tied world.session.info io world.host stage.tied
  unfold Watched.teardown Watched.teardownSession
  cases stage with
  | owned sessionId rootDir active held fresh _ =>
    rw [active,held,fresh]
    rw [fresh] at announced
    exact .released rfl rfl (finishSandbox_deeds platform _ _ io sessionId overlay rootDir _)
      (finishSandbox_tied platform _ _ io ⟨sessionId,some overlay,rootDir⟩ _ announced)
  | released ended gone done tied =>
    rw [ended,if_pos rfl,List.append_nil]
    exact .released ended gone done tied

theorem quiet_stage (stage : Stage overlay past before) (keeps : Keeps before after) : Stage overlay (past ++ []) after := by
  rw [List.append_nil]
  exact stage.keeps keeps

theorem andThen_stage (result : (Flow × World) × List Deed) (rest : World → (Flow × World) × List Deed)
    (first : Stage overlay (past ++ result.2) result.1.2)
    (second : ∀ before middle, Stage overlay before middle → Stage overlay (before ++ (rest middle).2) (rest middle).1.2) :
    Stage overlay (past ++ (Watched.andThen result rest).2) (Watched.andThen result rest).1.2 := by
  obtain ⟨⟨flow,world⟩,deeds⟩ := result
  cases flow with
  | next =>
    have later := second _ world first
    rw [List.append_assoc] at later
    exact later
  | returned => exact first
  | failed => exact first

theorem sendOutput_keeps (accepted : Bool) (text : Text) (keeps : Keeps before world) :
    Keeps before (sendOutput accepted text world).2 := by
  refine keeps.trans (.unchanged (sendOutput_session accepted text world) ?_)
  unfold sendOutput
  split
  · exact (Grows.one _ trivial).trans (Grows.one _ trivial)
  · exact Grows.refl _ _

theorem prompted_keeps (accepted : Bool) (result : Flow × World) (keeps : Keeps before result.2) :
    Keeps before (andThen result (sendPrompt accepted)).2 := by
  obtain ⟨flow,middle⟩ := result
  cases flow with
  | next => exact sendOutput_keeps _ _ keeps
  | returned => exact keeps
  | failed => exact keeps

section Bytes
variable (io : ByteIo)

theorem respond_keeps (cmd : Text) (world : World) : Keeps world (respond platform io cmd world).2 := by
  unfold respond
  split
  · obtain ⟨count,session⟩ := download_session platform io cmd world
    have works : Works [] IsDownload world (download platform io cmd world).2 := download_works platform io cmd world
    refine ⟨?_,?_,works.grows.weaken download_elsewhere⟩
    · rw [session]
    · rw [session]
  · have dispatched := dispatch_kept (loggedFs platform) io.date (fun host => Grows Elsewhere world.host.log host.log)
      (fun host op grows => grows.trans (Grows.one _ trivial)) cmd ⟨world.session.vfs,world.host⟩ (Grows.refl _ _)
    exact ⟨rfl,rfl,dispatched.trans (Grows.one _ trivial)⟩

theorem eraseLast_keeps (world : World) : Keeps world (eraseLast io world).2 := by
  unfold eraseLast
  split
  · exact .refl world
  · exact sendOutput_keeps _ _ (.update world _ rfl rfl)

theorem typed_keeps (byte : UInt8) (world : World) : Keeps world (typed io byte world).2 := by
  unfold typed
  split
  · exact .refl world
  · exact sendOutput_keeps _ _ (.update world _ rfl rfl)

theorem interrupt_keeps (world : World) : Keeps world (interrupt io world).2 :=
  prompted_keeps _ _ (sendOutput_keeps _ _ (.update _ _ rfl rfl))

theorem shellRequest_keeps (now : DateTime) (writes : Nat → Bool) (world : World) :
    Keeps world (shellRequest platform now writes world).2 :=
  prompted_keeps _ _ (sendOutput_keeps _ _ (.note _ trivial))

theorem sayGoodbye_stage (logout : Bool) (stage : Stage overlay past world) :
    Stage overlay (past ++ (Watched.sayGoodbye platform io logout world).2)
      (Watched.sayGoodbye platform io logout world).1.2 := by
  refine andThen_stage _ _ (quiet_stage stage (sendOutput_keeps _ _ (.refl _))) ?_
  intro before middle held
  split
  · exact teardown_stage platform io.teardown (held.keeps (.note _ trivial))
  · exact quiet_stage held (.refl _)

theorem runCommand_stage (cmd : Text) (stage : Stage overlay past world) :
    Stage overlay (past ++ (Watched.runCommand platform io cmd world).2) (Watched.runCommand platform io cmd world).1.2 := by
  have noted : Keeps world ((world.note (.recorded .input (cmd ++ ['\n']))).note
      (.emitted (.commandRun (commandEvent io world.session.info cmd)))) :=
    ⟨rfl,rfl,(Grows.one _ trivial).trans (Grows.one _ trivial)⟩
  have told : Stage overlay past ((world.note (.recorded .input (cmd ++ ['\n']))).note
      (.emitted (.commandRun (commandEvent io world.session.info cmd)))) := stage.keeps noted
  unfold Watched.runCommand
  dsimp only
  split
  · refine andThen_stage _ _ (sayGoodbye_stage platform io _ told) ?_
    intro before middle held
    exact quiet_stage held (.refl _)
  · refine andThen_stage _ _ (quiet_stage told (sendOutput_keeps _ _ (respond_keeps platform io cmd _))) ?_
    intro before middle held
    exact quiet_stage held (sendOutput_keeps _ _ (.refl _))

theorem endLine_stage (stage : Stage overlay past world) :
    Stage overlay (past ++ (Watched.endLine platform io world).2) (Watched.endLine platform io world).1.2 := by
  refine andThen_stage _ _ (quiet_stage stage (sendOutput_keeps _ _ (.refl _))) ?_
  intro before middle held
  dsimp only
  split
  · exact quiet_stage held (sendOutput_keeps _ _ (.update _ _ rfl rfl))
  · exact runCommand_stage platform io _ (held.keeps (.update _ _ rfl rfl))

theorem endOfInput_stage (stage : Stage overlay past world) :
    Stage overlay (past ++ (Watched.endOfInput platform io world).2) (Watched.endOfInput platform io world).1.2 := by
  unfold Watched.endOfInput
  split
  · exact sayGoodbye_stage platform io _ stage
  · exact quiet_stage stage (.refl _)

theorem dataByte_stage (byte : UInt8) (stage : Stage overlay past world) :
    Stage overlay (past ++ (Watched.dataByte platform io byte world).2) (Watched.dataByte platform io byte world).1.2 := by
  have seen : Stage overlay past (world.update (fun session => {session with lastByte := byte})) := stage.keeps (.update _ _ rfl rfl)
  unfold Watched.dataByte
  dsimp only
  split
  · exact quiet_stage stage ⟨rfl,rfl,Grows.refl _ _⟩
  · split
    · exact quiet_stage stage ⟨rfl,rfl,Grows.refl _ _⟩
    · split
      · split
        · exact quiet_stage stage ⟨rfl,rfl,Grows.refl _ _⟩
        · exact endLine_stage platform io seen
      · split
        · exact quiet_stage seen (eraseLast_keeps io _)
        · split
          · exact quiet_stage seen (interrupt_keeps io _)
          · split
            · exact endOfInput_stage platform io seen
            · split
              · exact quiet_stage seen (typed_keeps io byte _)
              · exact quiet_stage stage ⟨rfl,rfl,Grows.refl _ _⟩

end Bytes

theorem dataLoop_stage (bytes : List (UInt8 × ByteIo)) (past : List Deed) (stage : Stage overlay past world) :
    Stage overlay (past ++ (Watched.dataLoop platform bytes world).2) (Watched.dataLoop platform bytes world).1.2 := by
  induction bytes generalizing past world with
  | nil => exact quiet_stage stage (.refl _)
  | cons received rest ih =>
    obtain ⟨byte,io⟩ := received
    unfold Watched.dataLoop
    exact andThen_stage _ _ (dataByte_stage platform io byte stage) (fun before _ held => ih before held)

theorem perform_stage (callback : Callback) (past : List Deed) (stage : Stage overlay past world) :
    Stage overlay (past ++ (Watched.perform platform world callback).2) (Watched.perform platform world callback).1 := by
  cases callback with
  | data bytes =>
    have looped := dataLoop_stage platform bytes past stage
    change Stage overlay (past ++ (Watched.data platform bytes world).2) (Watched.data platform bytes world).1.2
    unfold Watched.data
    generalize Watched.dataLoop platform bytes world = result at looped ⊢
    obtain ⟨⟨flow,after⟩,deeds⟩ := result
    cases flow with
    | next => exact looped.keeps (.note _ trivial)
    | returned => exact looped
    | failed => exact looped
  | channelClose io => exact teardown_stage platform io stage
  | authPassword now user password => exact quiet_stage stage (.note _ trivial)
  | authPublickey now user algorithm fingerprint => exact quiet_stage stage (.note _ trivial)
  | shellRequest now writes => exact quiet_stage stage (shellRequest_keeps platform now writes world)
  | fetchLands io =>
    have works : Works [] IsFetch world (SessionInput.fetchLands platform io world) := fetchLands_works platform io world
    exact quiet_stage stage (.unchanged (fetchLands_session platform io world) (works.grows.weaken fetch_elsewhere))

theorem run_stage (callbacks : List Callback) (past : List Deed) (stage : Stage overlay past world) :
    Stage overlay (past ++ (Watched.run platform callbacks world).2) (Watched.run platform callbacks world).1 := by
  induction callbacks generalizing past world with
  | nil =>
    change Stage overlay (past ++ []) world
    rw [List.append_nil]
    exact stage
  | cons callback rest ih =>
    have later := ih _ (perform_stage platform callback past stage)
    rw [List.append_assoc] at later
    exact later

end Stages

-- What the deeds of a whole life say is what the host has logged of it.
theorem life_tied (platform : Platform) (info : SessionMeta) (config : SessionConfig) (forensics : ForensicsEngine)
    (sessionId : Text) (overlay : OverlayMount) (rootDir rootfs : Path) (layer : Layer) (callbacks : List Callback)
    (io : TeardownIo) (runtime : Bool) :
    let start := admitted info config forensics (some ⟨sessionId,some overlay,rootDir⟩) rootfs layer
    Tied (Watched.life platform callbacks io runtime start).2 (Watched.life platform callbacks io runtime start).1.log := by
  intro start
  have initial : Stage overlay [] start := .owned sessionId rootDir rfl rfl rfl .nil
  have ran := run_stage platform callbacks [] initial
  exact dropSession_tied platform io runtime _ _ ran.tied

theorem sandbox_ends_once (platform : Platform) (info : SessionMeta) (config : SessionConfig) (forensics : ForensicsEngine)
    (sessionId : Text) (overlay : OverlayMount) (rootDir rootfs : Path) (layer : Layer) (callbacks : List Callback)
    (io : TeardownIo) :
    let start := admitted info config forensics (some ⟨sessionId,some overlay,rootDir⟩) rootfs layer
    (Watched.life platform callbacks io true start).1 =
        dropSession platform io true (run platform callbacks start).session (run platform callbacks start).host ∧
      (Watched.life platform callbacks io true start).2 = (if overlay.isMounted then [.umount overlay.mountPoint] else []) ++
        [.tornDown overlay.upperDir,.analysed overlay.upperDir,.removed overlay.sessionDir] := by
  intro start
  have initial : Stage overlay [] start := .owned sessionId rootDir rfl rfl rfl .nil
  have ran := run_stage platform callbacks [] initial
  have erased := run_erases platform callbacks start
  unfold Watched.life
  dsimp only
  rw [← erased]
  rw [List.nil_append] at ran
  generalize Watched.run platform callbacks start = done at ran ⊢
  obtain ⟨world,deeds⟩ := done
  cases ran with
  | owned id root active held fresh _ =>
    change world.session.isEnded = false at active
    change world.session.sandbox = some ⟨id,some overlay,root⟩ at held
    change deeds = [] at fresh
    refine ⟨dropSession_erases platform io true _ _ ?_,?_⟩
    · intro ended
      rw [ended] at active
      cases active
    · rw [Watched.dropSession,active,held,fresh]
      exact finishSandbox_deeds platform _ _ io id overlay root _
  | released ended gone done _ =>
    change world.session.isEnded = true at ended
    change world.session.sandbox = none at gone
    change deeds = ending overlay at done
    refine ⟨dropSession_erases platform io true _ _ (fun _ => gone),?_⟩
    rw [Watched.dropSession,ended,gone,done]
    exact List.append_nil _

end AegisHoneypot.SingleTeardown
