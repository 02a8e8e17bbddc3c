import AegisHoneypot.PayloadFetch

namespace AegisHoneypot.SessionHandler
open FileTree Utf8Text GatewayHost OverlaySandbox Vfs Forensics PayloadFetch

-- The part of `forensics` in the configuration that a session reads.
structure SessionConfig where
  quarantineDir : Text
  fetchPayloads : Bool
  maxFetchesPerSession : Nat
  maxPayloadBytes : Nat

structure ActiveSession where
  info : SessionMeta
  vfs : VirtualFileSystem
  cmdBuffer : Text
  escapeSeq : Bool
  escapeLen : Nat
  lastByte : UInt8
  fetchCount : Nat
  config : SessionConfig
  forensics : ForensicsEngine
  sandbox : Option SandboxHandle
  isEnded : Bool

-- `new_client`, once admission control has let the connection in.
def newClient (info : SessionMeta) (config : SessionConfig) (forensics : ForensicsEngine) (sandbox : Option SandboxHandle)
    (rootfs : Path) : ActiveSession where
  info := info
  vfs := VirtualFileSystem.withRoots (sandbox.map SandboxHandle.rootDir) (some rootfs)
  cmdBuffer := []
  escapeSeq := false
  escapeLen := 0
  lastByte := 0
  fetchCount := 0
  config := config
  forensics := forensics
  sandbox := sandbox
  isEnded := false

structure CleanupIo where
  forensics : ForensicsIo
  removes : Bool

structure TeardownIo where
  now : DateTime
  durationSecs : Float
  umounts : Bool
  cleanup : CleanupIo

section Teardown
variable (platform : Platform)

-- Every path but the root has a parent. The result of the removal is dropped.
def removeSessionDir (removes : Bool) (upperDir : Path) (host : Host) : Host :=
  if upperDir = [] ∨ removes = false then host else
  let emptied := FileTree.apply host.layer.disk (.removeDirAll upperDir.dropLast)
  {host with layer := {host.layer with disk := emptied}}.note (.removed upperDir host.layer.disk)

-- The forensics pass and the removal behind it; nobody looks at the result of
-- the pass, the reclaim loop logs it.
def cleanUp (engine : ForensicsEngine) (info : SessionMeta) (io : CleanupIo) (upperDir : Path) (host : Host) : Host :=
  removeSessionDir io.removes upperDir (analyzeUpperdir platform.sha256 engine info io.forensics upperDir host).2

def sandboxReleased (umounts : Bool) (sandbox : SandboxHandle) (host : Host) : Option Path × Host :=
  let done := sandbox.teardown platform.kernel umounts host.layer
  (done.1,{host with layer := done.2})

def finishSandbox (engine : ForensicsEngine) (info : SessionMeta) (io : TeardownIo) (sandbox : SandboxHandle) (host : Host) :
    Host :=
  match sandboxReleased platform io.umounts sandbox host with
  | (none,released) => released
  | (some upperDir,released) => cleanUp platform engine info io.cleanup upperDir released

def endEvent (io : TeardownIo) (info : SessionMeta) : TelemetryEvent :=
  .sessionEnd ⟨io.now,info.sessionId,info.clientIp,io.durationSecs⟩

def announceEnd (io : TeardownIo) (info : SessionMeta) (host : Host) : Host :=
  (host.note (.emitted (endEvent io info))).note .recorderClosed

def teardownSession (io : TeardownIo) (session : ActiveSession) (host : Host) : ActiveSession × Host :=
  if session.isEnded then (session,host) else
  let announced := announceEnd io session.info host
  match session.sandbox with
  | none => ({session with isEnded := true},announced)
  | some sandbox => ({session with isEnded := true,sandbox := none},
      finishSandbox platform session.forensics session.info io sandbox announced)

-- `Drop for ActiveSession`. Without a runtime the sandbox is dropped as it is,
-- and its own `Drop` unmounts it.
def dropSession (io : TeardownIo) (runtime : Bool) (session : ActiveSession) (host : Host) : Host :=
  if session.isEnded then host else
  match session.sandbox with
  | none => host
  | some sandbox =>
    if runtime then finishSandbox platform session.forensics session.info io sandbox host
    else match sandbox.overlay with
      | none => host
      | some overlay => {host with layer := overlay.dropMount io.umounts host.layer}

end Teardown
end AegisHoneypot.SessionHandler
