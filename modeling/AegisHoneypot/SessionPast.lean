import AegisHoneypot.SessionInput
import AegisHoneypot.VfsHosts

-- Nothing in a session depends on what has been logged before: behind another
-- past it does and answers the same.
namespace AegisHoneypot.SessionPast
open FileTree Utf8Text GatewayHost OverlaySandbox Vfs Forensics PayloadFetch SessionHandler SessionInput VfsHosts

def behind (past : List Effect) (host : Host) : Host := {host with log := past ++ host.log}

section Host
variable (past : List Effect)

@[simp] theorem note_behind (host : Host) (effect : Effect) :
    (behind past host).note effect = behind past (host.note effect) := by
  simp only [behind,Host.note,List.append_assoc]

@[simp] theorem layer_behind (host : Host) (layer : Layer) :
    {behind past host with layer := layer} = behind past {host with layer := layer} := rfl

@[simp] theorem behind_layer (host : Host) : (behind past host).layer = host.layer := rfl

theorem quarantine_behind (sha256 : Bytes → Text) (engine : ForensicsEngine) (info : SessionMeta) (io : FileIo) (path : Path)
    (data : Bytes) (host : Host) :
    (quarantine sha256 engine info io path data (behind past host)).2 =
      behind past (quarantine sha256 engine info io path data host).2 := by
  simp only [quarantine,note_behind]
  split
  · rfl
  · split
    · rfl
    · split
      · rfl
      · rfl

theorem analyzeFile_behind (sha256 : Bytes → Text) (engine : ForensicsEngine) (info : SessionMeta) (io : FileIo) (path : Path)
    (data : Bytes) (host : Host) :
    (analyzeFile sha256 engine info io path data (behind past host)).2 =
      behind past (analyzeFile sha256 engine info io path data host).2 := by
  unfold analyzeFile
  split
  · rfl
  · split
    · rfl
    · split
      · rfl
      · split
        · rfl
        · exact quarantine_behind ..

theorem analyzeEntry_behind (sha256 : Bytes → Text) (engine : ForensicsEngine) (info : SessionMeta) (io : ForensicsIo)
    (disk : Disk) (host : Host) (path : Path) :
    analyzeEntry sha256 engine info io disk (behind past host) path =
      behind past (analyzeEntry sha256 engine info io disk host path) := by
  unfold analyzeEntry
  split
  · cases disk.lookup path with
    | none => rfl
    | some entry =>
      cases entry with
      | dir => rfl
      | file data => exact analyzeFile_behind ..
  · rfl

theorem analyzeUpperdir_behind (sha256 : Bytes → Text) (engine : ForensicsEngine) (info : SessionMeta) (io : ForensicsIo)
    (upperDir : Path) (host : Host) :
    (analyzeUpperdir sha256 engine info io upperDir (behind past host)).2 =
      behind past (analyzeUpperdir sha256 engine info io upperDir host).2 := by
  unfold analyzeUpperdir
  split
  · simp only [behind_layer]
    generalize walk host.layer.disk upperDir = paths
    generalize host.layer.disk = disk
    induction paths generalizing host with
    | nil => rfl
    | cons path rest ih => rw [List.foldl_cons,List.foldl_cons,analyzeEntry_behind,ih]
  · rfl

theorem cleanUp_behind (platform : Platform) (engine : ForensicsEngine) (info : SessionMeta) (io : CleanupIo)
    (upperDir : Path) (host : Host) :
    cleanUp platform engine info io upperDir (behind past host) = behind past (cleanUp platform engine info io upperDir host) := by
  simp only [cleanUp,analyzeUpperdir_behind,removeSessionDir]
  split
  · rfl
  · simp only [behind_layer,layer_behind,note_behind]

theorem finishSandbox_behind (platform : Platform) (engine : ForensicsEngine) (info : SessionMeta) (io : TeardownIo)
    (sandbox : SandboxHandle) (host : Host) :
    finishSandbox platform engine info io sandbox (behind past host) =
      behind past (finishSandbox platform engine info io sandbox host) := by
  simp only [finishSandbox,sandboxReleased,behind_layer,layer_behind]
  cases (sandbox.teardown platform.kernel io.umounts host.layer).1 with
  | none => rfl
  | some upperDir => exact cleanUp_behind ..

theorem teardownSession_behind (platform : Platform) (io : TeardownIo) (session : ActiveSession) (host : Host) :
    teardownSession platform io session (behind past host) =
      ((teardownSession platform io session host).1,behind past (teardownSession platform io session host).2) := by
  simp only [teardownSession,announceEnd,note_behind]
  split
  · rfl
  · cases session.sandbox with
    | none => rfl
    | some sandbox => simp only [finishSandbox_behind]

theorem keepPayload_behind (platform : Platform) (io : FetchIo) (target : Text) (mountRoot : Option Path) (url : Url)
    (body : Bytes) (host : Host) :
    keepPayload platform io target mountRoot url body (behind past host) =
      behind past (keepPayload platform io target mountRoot url body host) := by
  unfold keepPayload
  cases io.quarantines with
  | true =>
    cases mountRoot with
    | none => exact note_behind ..
    | some mount =>
      simp only [if_true,note_behind,behind_layer,layer_behind]
      split
      · rfl
      · rfl
  | false =>
    cases mountRoot with
    | none => rfl
    | some mount =>
      simp only [Bool.false_eq_true,if_false,behind_layer,layer_behind,note_behind]
      split
      · rfl
      · rfl

theorem lookUp_behind (io : FetchIo) (url : Url) (host : Host) :
    lookUp io url (behind past host) = behind past (lookUp io url host) := by
  unfold lookUp
  split
  · rfl
  · exact note_behind ..

theorem dial_behind (io : FetchIo) (url : Url) (target : IpAddr × UInt16) (host : Host) :
    dial io url target (behind past host) = behind past (dial io url target host) := by
  unfold dial
  induction io.dials url target generalizing host with
  | nil => rfl
  | cons address rest ih => rw [List.foldl_cons,List.foldl_cons,note_behind,ih]

theorem fetch_behind (platform : Platform) (io : FetchIo) (url quarantineDir : Text) (mountRoot : Option Path)
    (maxBytes : Nat) (host : Host) :
    fetchPayloadBlocking platform io url quarantineDir mountRoot maxBytes (behind past host) =
      ((fetchPayloadBlocking platform io url quarantineDir mountRoot maxBytes host).1,
        behind past (fetchPayloadBlocking platform io url quarantineDir mountRoot maxBytes host).2) := by
  simp only [fetchPayloadBlocking,lookUp_behind,dial_behind,keepPayload_behind]
  cases platform.parseUrl url with
  | none => rfl
  | some parsed =>
    dsimp only
    cases vetTarget io.toSocketAddrs parsed with
    | error refusal => rfl
    | ok target =>
      dsimp only
      split
      · rfl
      · cases io.answer parsed target with
        | none => rfl
        | some response =>
          dsimp only
          split
          · rfl
          · rfl

theorem logged_behind (platform : Platform) : Maps (loggedFs platform) (loggedFs platform) (behind past) := by
  constructor
  · intro host
    rfl
  · intro host op
    simp only [loggedFs,behind_layer,layer_behind,note_behind]

end Host

def worldBehind (past : List Effect) (world : World) : World := {world with host := behind past world.host}

def flowBehind (past : List Effect) (result : Flow × World) : Flow × World := (result.1,worldBehind past result.2)

section World
variable (past : List Effect)

@[simp] theorem worldNote_behind (world : World) (effect : Effect) :
    (worldBehind past world).note effect = worldBehind past (world.note effect) := by
  simp only [worldBehind,World.note,note_behind]

@[simp] theorem worldUpdate_behind (world : World) (change : ActiveSession → ActiveSession) :
    (worldBehind past world).update change = worldBehind past (world.update change) := rfl

@[simp] theorem worldBehind_session (world : World) : (worldBehind past world).session = world.session := rfl

theorem andThen_behind (result : Flow × World) (rest : World → Flow × World)
    (next : ∀ world, rest (worldBehind past world) = flowBehind past (rest world)) :
    andThen (flowBehind past result) rest = flowBehind past (andThen result rest) := by
  obtain ⟨flow,world⟩ := result
  cases flow with
  | next => exact next world
  | returned => rfl
  | failed => rfl

theorem sendOutput_behind (accepted : Bool) (text : Text) (world : World) :
    sendOutput accepted text (worldBehind past world) = flowBehind past (sendOutput accepted text world) := by
  simp only [sendOutput,worldNote_behind]
  split
  · rfl
  · rfl

theorem sendPrompt_behind (accepted : Bool) (world : World) :
    sendPrompt accepted (worldBehind past world) = flowBehind past (sendPrompt accepted world) := sendOutput_behind ..

variable (platform : Platform) (io : ByteIo)

theorem teardown_behind (teardownIo : TeardownIo) (world : World) :
    teardown platform teardownIo (worldBehind past world) = worldBehind past (teardown platform teardownIo world) := by
  simp only [teardown,worldBehind,teardownSession_behind]

theorem awaitFetch_behind (job : FetchJob) (isPipe : Bool) (world : World) :
    awaitFetch platform io job isPipe (worldBehind past world) =
      ((awaitFetch platform io job isPipe world).1,worldBehind past (awaitFetch platform io job isPipe world).2) := by
  have host : (worldBehind past world).host = behind past world.host := rfl
  simp only [awaitFetch,host,fetch_behind]
  split
  · generalize fetchPayloadBlocking platform io.fetch job.url job.quarantineDir job.mountRoot job.maxBytes world.host = done
    obtain ⟨⟨text,payload⟩,fetched⟩ := done
    cases payload with
    | none => rfl
    | some payload =>
      simp only [worldBehind,World.note,note_behind]
  · rfl

theorem startFetch_behind (cmd url : Text) (world : World) :
    startFetch platform io cmd url (worldBehind past world) =
      ((startFetch platform io cmd url world).1,worldBehind past (startFetch platform io cmd url world).2) := by
  simp only [startFetch,worldBehind_session,worldUpdate_behind,worldNote_behind,awaitFetch_behind]

theorem runShell_behind (cmd : Text) (world : World) :
    runShell platform io cmd (worldBehind past world) =
      ((runShell platform io cmd world).1,worldBehind past (runShell platform io cmd world).2) := by
  have same := dispatch_moved (logged_behind past platform) io.date cmd ⟨world.session.vfs,world.host⟩
  simp only [moved] at same
  simp only [runShell,worldBehind_session]
  change (_,World.note _ _) = _
  rw [show (worldBehind past world).host = behind past world.host from rfl,same]
  simp only [answered,moved,worldBehind,World.note,note_behind]

theorem download_behind (cmd : Text) (world : World) :
    download platform io cmd (worldBehind past world) =
      ((download platform io cmd world).1,worldBehind past (download platform io cmd world).2) := by
  unfold download
  generalize SessionInput.reUrl.findIter cmd = found
  cases found with
  | nil => rfl
  | cons url rest =>
    simp only [worldBehind_session,startFetch_behind]
    by_cases refused : world.session.config.fetchPayloads = false ∨
        world.session.config.maxFetchesPerSession ≤ world.session.fetchCount
    · rw [if_pos refused,if_pos refused]
    · rw [if_neg refused,if_neg refused]

theorem respond_behind (cmd : Text) (world : World) :
    respond platform io cmd (worldBehind past world) =
      ((respond platform io cmd world).1,worldBehind past (respond platform io cmd world).2) := by
  unfold respond
  by_cases fetches : reDownload.isMatch cmd = true
  · rw [if_pos fetches,if_pos fetches]
    exact download_behind past platform io cmd world
  · rw [if_neg fetches,if_neg fetches]
    exact runShell_behind past platform io cmd world

theorem sayGoodbye_behind (logout : Bool) (world : World) :
    sayGoodbye platform io logout (worldBehind past world) = flowBehind past (sayGoodbye platform io logout world) := by
  simp only [sayGoodbye,sendOutput_behind]
  apply andThen_behind
  intro world
  split
  · simp only [worldNote_behind,teardown_behind]
    rfl
  · rfl

theorem runCommand_behind (cmd : Text) (world : World) :
    runCommand platform io cmd (worldBehind past world) = flowBehind past (runCommand platform io cmd world) := by
  simp only [runCommand,worldBehind_session,worldNote_behind,sayGoodbye_behind,respond_behind,sendOutput_behind]
  split
  · exact andThen_behind past _ _ (fun _ => rfl)
  · exact andThen_behind past _ _ (fun world => sendPrompt_behind ..)

theorem endLine_behind (world : World) :
    endLine platform io (worldBehind past world) = flowBehind past (endLine platform io world) := by
  simp only [endLine,sendOutput_behind]
  apply andThen_behind
  intro world
  simp only [worldBehind_session,worldUpdate_behind,sendPrompt_behind,runCommand_behind]
  split
  · rfl
  · rfl

theorem eraseLast_behind (world : World) : eraseLast io (worldBehind past world) = flowBehind past (eraseLast io world) := by
  simp only [eraseLast,worldBehind_session,worldUpdate_behind,sendOutput_behind]
  split
  · rfl
  · rfl

theorem interrupt_behind (world : World) : interrupt io (worldBehind past world) = flowBehind past (interrupt io world) := by
  simp only [interrupt,worldUpdate_behind,sendOutput_behind]
  exact andThen_behind past _ _ (fun world => sendPrompt_behind ..)

theorem endOfInput_behind (world : World) :
    endOfInput platform io (worldBehind past world) = flowBehind past (endOfInput platform io world) := by
  simp only [endOfInput,worldBehind_session,sayGoodbye_behind]
  split
  · rfl
  · rfl

theorem typed_behind (byte : UInt8) (world : World) :
    typed io byte (worldBehind past world) = flowBehind past (typed io byte world) := by
  simp only [typed,worldBehind_session,worldUpdate_behind,sendOutput_behind]
  split
  · rfl
  · rfl

theorem dataByte_behind (byte : UInt8) (world : World) :
    dataByte platform io byte (worldBehind past world) = flowBehind past (dataByte platform io byte world) := by
  simp only [dataByte,worldBehind_session,worldUpdate_behind,endLine_behind,eraseLast_behind,interrupt_behind,
    endOfInput_behind,typed_behind]
  split
  · rfl
  · split
    · rfl
    · split
      · split
        · rfl
        · rfl
      · split
        · rfl
        · split
          · rfl
          · split
            · rfl
            · split
              · rfl
              · rfl

theorem dataLoop_behind (bytes : List (UInt8 × ByteIo)) (world : World) :
    dataLoop platform bytes (worldBehind past world) = flowBehind past (dataLoop platform bytes world) := by
  induction bytes generalizing world with
  | nil => rfl
  | cons received rest ih =>
    obtain ⟨byte,io⟩ := received
    simp only [dataLoop,dataByte_behind]
    exact andThen_behind past _ _ ih

theorem data_behind (bytes : List (UInt8 × ByteIo)) (world : World) :
    data platform bytes (worldBehind past world) =
      ((data platform bytes world).1,worldBehind past (data platform bytes world).2) := by
  simp only [data,dataLoop_behind,flowBehind]
  cases dataLoop platform bytes world with
  | mk flow after =>
    cases flow with
    | next => simp only [worldNote_behind]
    | returned => rfl
    | failed => rfl

end World

def unlogged (world : World) : World := {world with host := ⟨world.host.layer,[]⟩}

theorem behind_unlogged (world : World) : worldBehind world.host.log (unlogged world) = world := by
  simp only [worldBehind,behind,unlogged,List.append_nil]

-- What does not look at the past only adds to it.
theorem step_extends (step : World → World)
    (natural : ∀ past world, step (worldBehind past world) = worldBehind past (step world)) (world : World) :
    ∃ new, (step world).host.log = world.host.log ++ new := by
  have same := natural world.host.log (unlogged world)
  rw [behind_unlogged] at same
  rw [same]
  exact ⟨_,rfl⟩

theorem sendOutput_extends (accepted : Bool) (text : Text) (world : World) :
    ∃ new, (sendOutput accepted text world).2.host.log = world.host.log ++ new :=
  step_extends (fun world => (sendOutput accepted text world).2)
    (fun past world => congrArg Prod.snd (sendOutput_behind past accepted text world)) world

theorem teardown_extends (platform : Platform) (io : TeardownIo) (world : World) :
    ∃ new, (teardown platform io world).host.log = world.host.log ++ new :=
  step_extends (teardown platform io) (fun past world => teardown_behind past platform io world) world

theorem dataLoop_extends (platform : Platform) (bytes : List (UInt8 × ByteIo)) (world : World) :
    ∃ new, (dataLoop platform bytes world).2.host.log = world.host.log ++ new :=
  step_extends (fun world => (dataLoop platform bytes world).2)
    (fun past world => congrArg Prod.snd (dataLoop_behind past platform bytes world)) world

theorem data_extends (platform : Platform) (packet : List (UInt8 × ByteIo)) (world : World) :
    ∃ new, (data platform packet world).2.host.log = world.host.log ++ new :=
  step_extends (fun world => (data platform packet world).2)
    (fun past world => congrArg Prod.snd (data_behind past platform packet world)) world

end AegisHoneypot.SessionPast
