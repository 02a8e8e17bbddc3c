import AegisHoneypot.SessionHandler
import AegisHoneypot.ShellDispatch

namespace AegisHoneypot.SessionInput
open FileTree Utf8Text GatewayHost OverlaySandbox Vfs Forensics PayloadFetch SessionHandler Pattern

def maxCommandLen : Nat := 8*1024
def maxEscapeSeqLen : Nat := 16
def maxCredentialLen : Nat := 256

def reDownload : Pattern := seq (anyOf [word "wget",word "curl",word "tftp"]) space

def reUrl : Pattern := inOrder [word "http",upTo 1 (one (· == 's')),word "://",many1 (noneOf ";&|<>'")]

def rePipeShell : Pattern :=
  inOrder [anyOf [word "wget",word "curl"],many1 visible,one (· == '|'),many space,
    anyOf [word "sh",word "bash",seq (word "python") (upTo 1 (one (· == '3'))),word "perl"]]

structure FetchJob where
  url : Text
  quarantineDir : Text
  mountRoot : Option Path
  maxBytes : Nat

structure World where
  session : ActiveSession
  host : Host
  pending : List FetchJob

-- What happens around the handling of one byte: `writes` tells which of the
-- writes to the channel are accepted, counted from 0.
structure ByteIo where
  now : DateTime
  writes : Nat → Bool
  closes : Bool
  date : Text
  fetch : FetchIo
  inTime : Bool
  teardown : TeardownIo

-- After a byte the loop of `data` goes on, or `data` returns, with or without
-- an error.
inductive Flow where
  | next
  | returned
  | failed
  deriving DecidableEq, Repr

def andThen (result : Flow × World) (rest : World → Flow × World) : Flow × World :=
  match result with
  | (.next,world) => rest world
  | stopped => stopped

namespace World

def note (world : World) (effect : Effect) : World := {world with host := world.host.note effect}

def update (world : World) (change : ActiveSession → ActiveSession) : World :=
  {world with session := change world.session}

end World

def getPrompt (vfs : VirtualFileSystem) : Text :=
  let dir := if vfs.currentPath = ["root".toList] then "~".toList
    else if vfs.currentPath.head? = some "root".toList then "~/".toList ++ Text.join "/" (vfs.currentPath.drop 1)
    else if vfs.currentPath = [] then "/".toList
    else "/".toList ++ Text.join "/" vfs.currentPath
  "root@ubuntu-server-01:".toList ++ dir ++ "# ".toList

def sendOutput (accepted : Bool) (text : Text) (world : World) : Flow × World :=
  if accepted then (.next,(world.note (.sent (encode text))).note (.recorded .output text)) else (.failed,world)

def sendPrompt (accepted : Bool) (world : World) : Flow × World :=
  sendOutput accepted (getPrompt world.session.vfs) world

def loggedFs (platform : Platform) : HostFs Host where
  view host := platform.fs.view host.layer
  apply host op := {host with layer := platform.fs.apply host.layer op}.note (.diskChanged op)

section Data
variable (platform : Platform) (io : ByteIo)

def teardown (teardownIo : TeardownIo) (world : World) : World :=
  let done := teardownSession platform teardownIo world.session world.host
  {world with session := done.1,host := done.2}

def payloadEvent (info : SessionMeta) (url : Text) (payload : PayloadInfo) : TelemetryEvent :=
  .payloadCaptured ⟨io.now,info.sessionId,info.clientIp,some (String.ofList url),String.ofList payload.sha256,
    payload.sizeBytes,String.ofList payload.quarantinePath,.unknown,payload.iocs⟩

-- The fetch runs on a thread of its own and goes on when the session stops
-- waiting for it after seven seconds.
def awaitFetch (job : FetchJob) (isPipe : Bool) (world : World) : Text × World :=
  if io.inTime then
    let done := fetchPayloadBlocking platform io.fetch job.url job.quarantineDir job.mountRoot job.maxBytes world.host
    let fetched := {world with host := done.2}
    let told := match done.1.2 with
      | some payload => fetched.note (.emitted (payloadEvent io world.session.info job.url payload))
      | none => fetched
    (done.1.1 ++ (if isPipe then
      "[*] Attempting install...\r\nbash: ./setup.sh: Permission denied\r\n".toList else []),told)
  else (fakeWgetProgress job.url 64,{world with pending := world.pending ++ [job]})

def startFetch (cmd url : Text) (world : World) : Text × World :=
  let config := world.session.config
  let counted := world.update (fun session => {session with fetchCount := session.fetchCount+1})
  awaitFetch platform io ⟨url,config.quarantineDir,world.session.vfs.mountRoot,config.maxPayloadBytes⟩
    (rePipeShell.isMatch cmd) (counted.note (.fetchStarted url))

def download (cmd : Text) (world : World) : Text × World :=
  match reUrl.findIter cmd with
  | [] => (Shell.firstWord cmd "wget" ++ ": missing URL\r\n".toList,world)
  | url :: _ =>
    if world.session.config.fetchPayloads = false ∨ world.session.config.maxFetchesPerSession ≤ world.session.fetchCount then
      (fakeWgetProgress url 64,world)
    else startFetch platform io cmd url world

def runShell (cmd : Text) (world : World) : Text × World :=
  let answer := Shell.dispatch (loggedFs platform) io.date cmd ⟨world.session.vfs,world.host⟩
  let shown := {world with session := {world.session with vfs := answer.2.vfs},host := answer.2.host}
  (answer.1,shown.note (.dispatched world.session.vfs answer.2.vfs))

def respond (cmd : Text) (world : World) : Text × World :=
  if reDownload.isMatch cmd then download platform io cmd world else runShell platform io cmd world

def commandEvent (info : SessionMeta) (cmd : Text) : CommandRunEvent :=
  ⟨io.now,info.sessionId,info.clientIp,String.ofList cmd⟩

def sayGoodbye (logout : Bool) (world : World) : Flow × World :=
  andThen (sendOutput logout "logout\r\n".toList world) fun world =>
    if io.closes then (.next,teardown platform io.teardown (world.note .channelClosed)) else (.failed,world)

def runCommand (cmd : Text) (world : World) : Flow × World :=
  let told := (world.note (.recorded .input (cmd ++ ['\n']))).note
    (.emitted (.commandRun (commandEvent io world.session.info cmd)))
  if cmd.trim = "exit".toList ∨ cmd.trim = "logout".toList then
    andThen (sayGoodbye platform io (io.writes 1) told) fun world => (.returned,world)
  else
    let answer := respond platform io cmd told
    andThen (sendOutput (io.writes 1) answer.1 answer.2) (sendPrompt (io.writes 2))

def endLine (world : World) : Flow × World :=
  andThen (sendOutput (io.writes 0) Text.crlf world) fun world =>
    let cmd := world.session.cmdBuffer.trim
    let cleared := world.update (fun session => {session with cmdBuffer := []})
    if cmd = [] then sendPrompt (io.writes 1) cleared else runCommand platform io cmd cleared

def eraseLast (world : World) : Flow × World :=
  if world.session.cmdBuffer = [] then (.next,world) else
  sendOutput (io.writes 0) ['\x08',' ','\x08']
    (world.update (fun session => {session with cmdBuffer := session.cmdBuffer.dropLast}))

def interrupt (world : World) : Flow × World :=
  andThen (sendOutput (io.writes 0) "^C\r\n".toList (world.update (fun session => {session with cmdBuffer := []})))
    (sendPrompt (io.writes 1))

-- Ctrl-D on an empty line ends the session, but not the loop over the bytes.
def endOfInput (world : World) : Flow × World :=
  if world.session.cmdBuffer = [] then sayGoodbye platform io (io.writes 0) world else (.next,world)

def typed (byte : UInt8) (world : World) : Flow × World :=
  if maxCommandLen ≤ world.session.cmdBuffer.length then (.next,world) else
  sendOutput (io.writes 0) [Char.ofNat byte.toNat]
    (world.update (fun session => {session with cmdBuffer := session.cmdBuffer ++ [Char.ofNat byte.toNat]}))

def isAlphabetic (byte : UInt8) : Bool := (0x41 ≤ byte && byte ≤ 0x5a) || (0x61 ≤ byte && byte ≤ 0x7a)

def escaped (byte : UInt8) (session : ActiveSession) : ActiveSession :=
  let length := session.escapeLen+1
  let finished := isAlphabetic byte || byte == 0x7e || decide (maxEscapeSeqLen ≤ length)
  {session with escapeLen := length,escapeSeq := !finished,lastByte := byte}

def dataByte (byte : UInt8) (world : World) : Flow × World :=
  let seen := world.update (fun session => {session with lastByte := byte})
  if byte = 0x1b then (.next,seen.update (fun session => {session with escapeSeq := true,escapeLen := 0}))
  else if world.session.escapeSeq then (.next,world.update (escaped byte))
  else if byte = 0x0d ∨ byte = 0x0a then
    if byte = 0x0a ∧ world.session.lastByte = 0x0d then (.next,seen) else endLine platform io seen
  else if byte = 0x7f ∨ byte = 0x08 then eraseLast io seen
  else if byte = 0x03 then interrupt io seen
  else if byte = 0x04 then endOfInput platform io seen
  else if isPrintable byte then typed io byte seen
  else (.next,seen)

def TerminatesLine (session : ActiveSession) (byte : UInt8) : Prop :=
  session.escapeSeq = false ∧ (byte = 0x0d ∨ (byte = 0x0a ∧ session.lastByte ≠ 0x0d))

-- The byte neither ends a line nor the input.
structure Inner (session : ActiveSession) (byte : UInt8) : Prop where
  open_ : ¬ TerminatesLine session byte
  stays : ¬ (session.escapeSeq = false ∧ byte = 0x04)

-- What one byte can do.
inductive ByteStep (byte : UInt8) (world : World) : Flow × World → Prop where
  | escape : Inner world.session byte → ByteStep byte world (.next,world.update
      (fun session => {session with lastByte := byte,escapeSeq := true,escapeLen := 0}))
  | sequence : Inner world.session byte → ByteStep byte world (.next,world.update (escaped byte))
  | ignored : Inner world.session byte → ByteStep byte world (.next,world.update (fun session => {session with lastByte := byte}))
  | erases : Inner world.session byte →
      ByteStep byte world (eraseLast io (world.update (fun session => {session with lastByte := byte})))
  | interrupts : Inner world.session byte →
      ByteStep byte world (interrupt io (world.update (fun session => {session with lastByte := byte})))
  | types : Inner world.session byte → isPrintable byte = true →
      ByteStep byte world (typed io byte (world.update (fun session => {session with lastByte := byte})))
  | leaves : ¬ TerminatesLine world.session byte → world.session.escapeSeq = false → byte = 0x04 →
      ByteStep byte world (endOfInput platform io (world.update (fun session => {session with lastByte := byte})))
  | ends : TerminatesLine world.session byte →
      ByteStep byte world (endLine platform io (world.update (fun session => {session with lastByte := byte})))

theorem dataByte_step (byte : UInt8) (world : World) : ByteStep platform io byte world (dataByte platform io byte world) := by
  have unended : ¬ (byte = 0x0d ∨ byte = 0x0a) → ¬ TerminatesLine world.session byte :=
    fun other terminates => other (terminates.2.imp_right And.left)
  have inner : ¬ (byte = 0x0d ∨ byte = 0x0a) → byte ≠ 0x04 → Inner world.session byte :=
    fun other stays => ⟨unended other,fun leaves => stays leaves.2⟩
  unfold dataByte
  dsimp only
  split
  · rename_i escape
    subst escape
    exact .escape (inner (by decide) (by decide))
  · split
    · rename_i inside
      refine .sequence ⟨fun terminates => ?_,fun leaves => ?_⟩
      · rw [terminates.1] at inside
        cases inside
      · rw [leaves.1] at inside
        cases inside
    · rename_i outside
      have plain : world.session.escapeSeq = false := by simpa using outside
      split
      · rename_i terminator
        split
        · rename_i joined
          obtain ⟨rfl,last⟩ := joined
          refine .ignored ⟨fun terminates => ?_,fun leaves => absurd leaves.2 (by decide)⟩
          rcases terminates.2 with carriage | ⟨_,separate⟩
          · exact absurd carriage (by decide)
          · exact separate last
        · rename_i separate
          exact .ends ⟨plain,terminator.imp_right (fun newline => ⟨newline,fun last => separate ⟨newline,last⟩⟩)⟩
      · rename_i other
        split
        · rename_i erases
          refine .erases (inner other ?_)
          rintro rfl
          exact absurd erases (by decide)
        · split
          · rename_i interrupts
            subst interrupts
            exact .interrupts (inner other (by decide))
          · split
            · rename_i leaves
              exact .leaves (unended other) plain leaves
            · rename_i stays
              split
              · rename_i printable
                exact .types (inner other stays) printable
              · exact .ignored (inner other stays)

end Data

def dataLoop (platform : Platform) : List (UInt8 × ByteIo) → World → Flow × World
  | [],world => (.next,world)
  | (byte,io) :: rest,world => andThen (dataByte platform io byte world) (dataLoop platform rest)

def data (platform : Platform) (bytes : List (UInt8 × ByteIo)) (world : World) : Bool × World :=
  match dataLoop platform bytes world with
  | (.next,world) => (true,world.note .recorderFlushed)
  | (.returned,world) => (true,world)
  | (.failed,world) => (false,world)

def truncateCredential (text : Text) : Text :=
  if maxCredentialLen < text.length then text.take maxCredentialLen ++ ['…'] else text

def credentialEvent (now : DateTime) (info : SessionMeta) (user secret : Text) (method : AuthMethod) : TelemetryEvent :=
  .credentialHarvest ⟨now,info.sessionId,info.clientIp,String.ofList (truncateCredential user),
    some (String.ofList (truncateCredential secret)),method⟩

def banner : Text := Shell.rows ["","Linux ubuntu-server-01 5.15.0-72-generic #79-Ubuntu SMP x86_64",
  "Welcome to Ubuntu 22.04.2 LTS (GNU/Linux 5.15.0-72-generic x86_64)","",
  " * Documentation:  https://help.ubuntu.com"," * Management:     https://landscape.canonical.com",
  " * Support:        https://ubuntu.com/advantage","","Last login: Mon Aug 26 22:14:07 2026 from 192.0.2.100",""]

-- What the SSH library calls on the handler of a session, and the end of a
-- fetch that was not waited for.
inductive Callback where
  | authPassword (now : DateTime) (user password : Text)
  | authPublickey (now : DateTime) (user algorithm fingerprint : Text)
  | shellRequest (now : DateTime) (writes : Nat → Bool)
  | data (bytes : List (UInt8 × ByteIo))
  | channelClose (io : TeardownIo)
  | fetchLands (io : FetchIo)

def shellRequest (platform : Platform) (now : DateTime) (writes : Nat → Bool) (world : World) : Flow × World :=
  let info := world.session.info
  let told := world.note (.emitted (.sessionStart
    ⟨now,info.sessionId,info.clientIp,info.clientPort,platform.geoip info.clientIp⟩))
  andThen (sendOutput (writes 0) banner told) (sendPrompt (writes 1))

def fetchLands (platform : Platform) (io : FetchIo) (world : World) : World :=
  match world.pending with
  | [] => world
  | job :: rest =>
    let done := fetchPayloadBlocking platform io job.url job.quarantineDir job.mountRoot job.maxBytes world.host
    {world with host := done.2,pending := rest}

def perform (platform : Platform) (world : World) : Callback → World
  | .authPassword now user password =>
    world.note (.emitted (credentialEvent now world.session.info user password .password))
  | .authPublickey now user algorithm fingerprint => world.note (.emitted (credentialEvent now world.session.info user
      ("pubkey:".toList ++ algorithm ++ [' '] ++ fingerprint) .publicKey))
  | .shellRequest now writes => (shellRequest platform now writes world).2
  | .data bytes => (SessionInput.data platform bytes world).2
  | .channelClose io => teardown platform io world
  | .fetchLands io => SessionInput.fetchLands platform io world

def run (platform : Platform) (callbacks : List Callback) (world : World) : World :=
  callbacks.foldl (perform platform) world

end AegisHoneypot.SessionInput
