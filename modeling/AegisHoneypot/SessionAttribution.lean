import AegisHoneypot.LineEditing
import AegisHoneypot.DashboardStore

-- Whose events a session emits: every one names the session and the address of
-- its client, whatever the client sends and whatever fails on the way.
namespace AegisHoneypot.SessionAttribution
open FileTree Utf8Text GatewayHost OverlaySandbox Vfs Forensics PayloadFetch SessionHandler SessionInput SessionSilence Chronicle
open VfsHosts DashboardStore

def Names (info : SessionMeta) (event : TelemetryEvent) : Prop :=
  event.sessionId = info.sessionId ∧ eventIp event = info.clientIp

def Attributed (info : SessionMeta) (effect : Effect) : Prop := ∀ event, effect = .emitted event → Names info event

theorem attributed_event (names : Names info event) : Attributed info (.emitted event) := by
  intro other same
  cases same
  exact names

def isEvent : Effect → Bool
  | .emitted _ => true
  | _ => false

theorem attributed_other (other : isEvent effect = false) : Attributed info effect := by
  intro event same
  subst same
  cases other

theorem attributed_fetch (info : SessionMeta) (effect : Effect) (fetch : IsFetch effect) : Attributed info effect := by
  intro event same
  subst same
  cases fetch

theorem emissions_names (grows : Grows (Attributed info) [] log) : ∀ event ∈ emissions log, Names info event := by
  obtain ⟨new,rfl,attributed⟩ := grows
  intro event member
  obtain ⟨effect,present,shown⟩ := List.mem_filterMap.mp member
  cases effect with
  | emitted told =>
    cases Option.some.inj shown
    exact attributed _ present _ rfl
  | _ => cases shown

-- What a session says on the way from one state to another, it says of itself.
structure Speaks (before after : World) : Prop where
  info : after.session.info = before.session.info
  grows : Grows (Attributed before.session.info) before.host.log after.host.log

theorem Speaks.refl (world : World) : Speaks world world := ⟨rfl,Grows.refl _ _⟩

theorem Speaks.trans (first : Speaks before middle) (second : Speaks middle after) : Speaks before after := by
  refine ⟨second.info.trans first.info,first.grows.trans ?_⟩
  rw [← first.info]
  exact second.grows

theorem Speaks.note (world : World) (effect : Effect) (attributed : Attributed world.session.info effect) :
    Speaks world (world.note effect) := ⟨rfl,Grows.one _ attributed⟩

theorem Speaks.tells (world : World) (event : TelemetryEvent) (names : Names world.session.info event) :
    Speaks world (world.note (.emitted event)) := .note world _ (attributed_event names)

theorem Speaks.update (world : World) (change : ActiveSession → ActiveSession)
    (same : (change world.session).info = world.session.info) : Speaks world (world.update change) :=
  ⟨same,Grows.refl _ _⟩

theorem andThen_speaks (result : Flow × World) (rest : World → Flow × World) (first : Speaks world result.2)
    (second : ∀ middle, Speaks middle (rest middle).2) : Speaks world (andThen result rest).2 := by
  obtain ⟨flow,middle⟩ := result
  cases flow with
  | next => exact first.trans (second middle)
  | returned => exact first
  | failed => exact first

theorem sendOutput_speaks (accepted : Bool) (text : Text) (world : World) :
    Speaks world (sendOutput accepted text world).2 := by
  unfold sendOutput
  split
  · have sent : Speaks world (world.note (.sent (encode text))) := .note world _ (attributed_other rfl)
    exact sent.trans (.note _ (.recorded .output text) (attributed_other rfl))
  · exact .refl world

theorem sendPrompt_speaks (accepted : Bool) (world : World) : Speaks world (sendPrompt accepted world).2 :=
  sendOutput_speaks accepted _ world

section Cleanup
variable (platform : Platform) (engine : ForensicsEngine) (info : SessionMeta)

theorem quarantine_attributed (io : FileIo) (path : Path) (data : Bytes) (host : Host) :
    Grows (Attributed info) host.log (quarantine platform.sha256 engine info io path data host).2.log := by
  have kept : Grows (Attributed info) host.log
      (host.note (.quarantined (some path) (joinPath engine.quarantineDir (platform.sha256 data)) data)).log :=
    Grows.one _ (attributed_other rfl)
  unfold quarantine
  split
  · exact Grows.refl _ _
  · dsimp only
    split
    · exact kept
    · split
      · exact kept
      · exact kept.trans (Grows.one _ (attributed_event ⟨rfl,rfl⟩))

theorem analyzeEntry_attributed (io : ForensicsIo) (disk : Disk) (host : Host) (visited : Path) :
    Grows (Attributed info) host.log (analyzeEntry platform.sha256 engine info io disk host visited).log := by
  rcases analyzeEntry_host platform.sha256 engine info io disk host visited with same | ⟨found,same⟩
  · rw [same]
    exact Grows.refl _ _
  · rw [same]
    exact quarantine_attributed platform engine info _ visited found host

theorem analyzeUpperdir_attributed (io : ForensicsIo) (upperDir : Path) (host : Host) :
    Grows (Attributed info) host.log (analyzeUpperdir platform.sha256 engine info io upperDir host).2.log := by
  unfold analyzeUpperdir
  split
  · dsimp only
    generalize walk host.layer.disk upperDir = paths
    generalize host.layer.disk = disk
    induction paths generalizing host with
    | nil => exact Grows.refl _ _
    | cons visited rest ih => exact (analyzeEntry_attributed platform engine info io disk host visited).trans (ih _)
  · exact Grows.refl _ _

theorem cleanUp_attributed (io : CleanupIo) (upperDir : Path) (host : Host) :
    Grows (Attributed info) host.log (cleanUp platform engine info io upperDir host).log := by
  have analyzed := analyzeUpperdir_attributed platform engine info io.forensics upperDir host
  unfold cleanUp removeSessionDir
  split
  · exact analyzed
  · exact analyzed.trans (Grows.one _ (attributed_other rfl))

theorem finishSandbox_attributed (io : TeardownIo) (sandbox : SandboxHandle) (host : Host) :
    Grows (Attributed info) host.log (finishSandbox platform engine info io sandbox host).log := by
  unfold finishSandbox sandboxReleased
  dsimp only
  split
  · rename_i released same
    rw [← (Prod.mk.inj same).2]
    exact Grows.refl _ _
  · rename_i upperDir released same
    rw [← (Prod.mk.inj same).2]
    exact cleanUp_attributed platform engine info io.cleanup upperDir _

end Cleanup

section Bytes
variable (platform : Platform) (io : ByteIo)

theorem teardown_speaks (io : TeardownIo) (world : World) : Speaks world (teardown platform io world) := by
  obtain ⟨sandbox,session⟩ := teardown_session platform io world
  refine ⟨by rw [session],?_⟩
  have announced : Grows (Attributed world.session.info) world.host.log (announceEnd io world.session.info world.host).log :=
    (Grows.one _ (attributed_event ⟨rfl,rfl⟩)).trans (Grows.one _ (attributed_other rfl))
  unfold teardown teardownSession
  split
  · exact Grows.refl _ _
  · dsimp only
    split
    · exact announced
    · exact announced.trans (finishSandbox_attributed platform _ _ io _ _)

theorem fetched_speaks (io : FetchIo) (job : FetchJob) (world : World) : Speaks world {world with host :=
    (fetchPayloadBlocking platform io job.url job.quarantineDir job.mountRoot job.maxBytes world.host).2} :=
  ⟨rfl,(fetch_grows platform io _ _ _ _ world.host).weaken (attributed_fetch _)⟩

theorem awaitFetch_speaks (job : FetchJob) (isPipe : Bool) (world : World) :
    Speaks world (awaitFetch platform io job isPipe world).2 := by
  unfold awaitFetch
  split
  · have fetched := fetched_speaks platform io.fetch job world
    dsimp only
    split
    · exact fetched.trans (.tells _ _ ⟨rfl,rfl⟩)
    · exact fetched
  · exact ⟨rfl,Grows.refl _ _⟩

theorem startFetch_speaks (cmd url : Text) (world : World) : Speaks world (startFetch platform io cmd url world).2 := by
  have counted : Speaks world (world.update (fun session => {session with fetchCount := session.fetchCount+1})) :=
    .update world _ rfl
  exact (counted.trans (.note _ (.fetchStarted url) (attributed_other rfl))).trans (awaitFetch_speaks platform io _ _ _)

theorem respond_speaks (cmd : Text) (world : World) : Speaks world (respond platform io cmd world).2 := by
  unfold respond
  split
  · unfold download
    split
    · exact .refl world
    · split
      · exact .refl world
      · exact startFetch_speaks platform io cmd _ world
  · have dispatched := dispatch_kept (loggedFs platform) io.date
      (fun host => Grows (Attributed world.session.info) world.host.log host.log)
      (fun host op grows => grows.trans (Grows.one _ (attributed_other rfl))) cmd ⟨world.session.vfs,world.host⟩ (Grows.refl _ _)
    exact ⟨rfl,dispatched.trans (Grows.one _ (attributed_other rfl))⟩

theorem sayGoodbye_speaks (accepted : Bool) (world : World) : Speaks world (sayGoodbye platform io accepted world).2 := by
  apply andThen_speaks
  · exact sendOutput_speaks accepted _ world
  · intro middle
    split
    · exact (Speaks.note middle .channelClosed (attributed_other rfl)).trans (teardown_speaks platform io.teardown _)
    · exact .refl middle

theorem runCommand_speaks (cmd : Text) (world : World) : Speaks world (runCommand platform io cmd world).2 := by
  have told : Speaks world ((world.note (.recorded .input (cmd ++ ['\n']))).note
      (.emitted (.commandRun (commandEvent io world.session.info cmd)))) :=
    (Speaks.note world (.recorded .input _) (attributed_other rfl)).trans (.tells _ _ ⟨rfl,rfl⟩)
  unfold runCommand
  dsimp only
  split
  · exact andThen_speaks _ _ (told.trans (sayGoodbye_speaks platform io _ _)) (fun middle => .refl middle)
  · exact andThen_speaks _ _ ((told.trans (respond_speaks platform io cmd _)).trans (sendOutput_speaks _ _ _))
      (fun middle => sendPrompt_speaks _ middle)

theorem endLine_speaks (world : World) : Speaks world (endLine platform io world).2 := by
  apply andThen_speaks
  · exact sendOutput_speaks _ _ world
  · intro middle
    have cleared : Speaks middle (middle.update (fun session => {session with cmdBuffer := []})) := .update middle _ rfl
    dsimp only
    split
    · exact cleared.trans (sendPrompt_speaks _ _)
    · exact cleared.trans (runCommand_speaks platform io _ _)

theorem eraseLast_speaks (world : World) : Speaks world (eraseLast io world).2 := by
  have shortened : Speaks world (world.update (fun session => {session with cmdBuffer := session.cmdBuffer.dropLast})) :=
    .update world _ rfl
  unfold eraseLast
  split
  · exact .refl world
  · exact shortened.trans (sendOutput_speaks _ _ _)

theorem interrupt_speaks (world : World) : Speaks world (interrupt io world).2 := by
  have cleared : Speaks world (world.update (fun session => {session with cmdBuffer := []})) := .update world _ rfl
  exact andThen_speaks _ _ (cleared.trans (sendOutput_speaks _ _ _)) (fun middle => sendPrompt_speaks _ middle)

theorem endOfInput_speaks (world : World) : Speaks world (endOfInput platform io world).2 := by
  unfold endOfInput
  split
  · exact sayGoodbye_speaks platform io _ world
  · exact .refl world

theorem typed_speaks (byte : UInt8) (world : World) : Speaks world (typed io byte world).2 := by
  have longer : Speaks world (world.update
      (fun session => {session with cmdBuffer := session.cmdBuffer ++ [Char.ofNat byte.toNat]})) := .update world _ rfl
  unfold typed
  split
  · exact .refl world
  · exact longer.trans (sendOutput_speaks _ _ _)

theorem dataByte_speaks (byte : UInt8) (world : World) : Speaks world (dataByte platform io byte world).2 := by
  have seen : Speaks world (world.update (fun session => {session with lastByte := byte})) := .update world _ rfl
  have step := dataByte_step platform io byte world
  generalize dataByte platform io byte world = result at step ⊢
  cases step with
  | escape => exact ⟨rfl,Grows.refl _ _⟩
  | sequence => exact ⟨rfl,Grows.refl _ _⟩
  | ignored => exact seen
  | erases => exact seen.trans (eraseLast_speaks io _)
  | interrupts => exact seen.trans (interrupt_speaks io _)
  | types => exact seen.trans (typed_speaks io byte _)
  | leaves => exact seen.trans (endOfInput_speaks platform io _)
  | ends => exact seen.trans (endLine_speaks platform io _)

end Bytes

section Runs
variable (platform : Platform)

theorem dataLoop_speaks (bytes : List (UInt8 × ByteIo)) (world : World) : Speaks world (dataLoop platform bytes world).2 := by
  induction bytes generalizing world with
  | nil => exact .refl world
  | cons received rest ih => exact andThen_speaks _ _ (dataByte_speaks platform received.2 received.1 world) ih

theorem data_speaks (bytes : List (UInt8 × ByteIo)) (world : World) : Speaks world (SessionInput.data platform bytes world).2 := by
  have looped := dataLoop_speaks platform bytes world
  unfold SessionInput.data
  generalize dataLoop platform bytes world = result at looped ⊢
  obtain ⟨flow,after⟩ := result
  cases flow with
  | next => exact looped.trans (.note _ .recorderFlushed (attributed_other rfl))
  | returned => exact looped
  | failed => exact looped

theorem fetchLands_speaks (io : FetchIo) (world : World) : Speaks world (fetchLands platform io world) := by
  unfold SessionInput.fetchLands
  split
  · exact .refl world
  · exact ⟨rfl,(fetched_speaks platform io _ world).grows⟩

theorem perform_speaks (callback : Callback) (world : World) : Speaks world (perform platform world callback) := by
  cases callback with
  | authPassword now user password => exact .tells world _ ⟨rfl,rfl⟩
  | authPublickey now user algorithm fingerprint => exact .tells world _ ⟨rfl,rfl⟩
  | shellRequest now writes =>
    have told : Speaks world (world.note (.emitted (.sessionStart ⟨now,world.session.info.sessionId,
        world.session.info.clientIp,world.session.info.clientPort,platform.geoip world.session.info.clientIp⟩))) :=
      .tells world _ ⟨rfl,rfl⟩
    exact andThen_speaks _ _ (told.trans (sendOutput_speaks _ _ _)) (fun middle => sendPrompt_speaks _ middle)
  | data bytes => exact data_speaks platform bytes world
  | channelClose io => exact teardown_speaks platform io world
  | fetchLands io => exact fetchLands_speaks platform io world

theorem run_speaks (callbacks : List Callback) (world : World) : Speaks world (run platform callbacks world) := by
  induction callbacks generalizing world with
  | nil => exact .refl world
  | cons callback rest ih => exact (perform_speaks platform callback world).trans (ih _)

theorem dropSession_attributed (io : TeardownIo) (runtime : Bool) (session : ActiveSession) (host : Host) :
    Grows (Attributed session.info) host.log (dropSession platform io runtime session host).log := by
  unfold dropSession
  split
  · exact Grows.refl _ _
  · split
    · exact Grows.refl _ _
    · split
      · exact finishSandbox_attributed platform _ _ io _ host
      · split
        · exact Grows.refl _ _
        · exact Grows.refl _ _

end Runs

-- A connection from its admission on: what the SSH library has called so far,
-- and the drop of the handler once the connection is gone.
structure Connection where
  platform : Platform
  info : SessionMeta
  config : SessionConfig
  forensics : ForensicsEngine
  sandbox : Option SandboxHandle
  rootfs : Path
  layer : Layer
  callbacks : List Callback
  dropped : Option (TeardownIo × Bool)

namespace Connection

def world (connection : Connection) : World := run connection.platform connection.callbacks (admitted connection.info
  connection.config connection.forensics connection.sandbox connection.rootfs connection.layer)

def log (connection : Connection) : List Effect :=
  match connection.dropped with
  | none => connection.world.host.log
  | some (io,runtime) => (dropSession connection.platform io runtime connection.world.session connection.world.host).log

def told (connection : Connection) : List TelemetryEvent := emissions connection.log

theorem log_attributed (connection : Connection) : Grows (Attributed connection.info) [] connection.log := by
  have spoken := run_speaks connection.platform connection.callbacks (admitted connection.info connection.config
    connection.forensics connection.sandbox connection.rootfs connection.layer)
  have ran : Grows (Attributed connection.info) [] connection.world.host.log := spoken.grows
  have info : connection.world.session.info = connection.info := spoken.info
  unfold log
  split
  · exact ran
  · refine ran.trans ?_
    rw [← info]
    exact dropSession_attributed connection.platform _ _ _ _

theorem told_names (connection : Connection) : ∀ event ∈ connection.told, Names connection.info event :=
  emissions_names connection.log_attributed

end Connection

end AegisHoneypot.SessionAttribution
