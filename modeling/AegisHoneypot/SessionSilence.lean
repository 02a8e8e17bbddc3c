import AegisHoneypot.SessionInput

namespace AegisHoneypot.SessionSilence
open FileTree Utf8Text GatewayHost OverlaySandbox Vfs Forensics PayloadFetch SessionHandler SessionInput Chronicle

def IsEnd : Effect → Prop
  | .emitted (.sessionEnd _) => True
  | _ => False

-- A command run, a fetch started, the host or the virtual file system changed.
def IsActivity : Effect → Prop
  | .emitted (.commandRun _) => True
  | .fetchStarted _ => True
  | .diskChanged _ => True
  | .dispatched before after => before ≠ after
  | _ => False

def Ended (log : List Effect) : Prop := ∃ effect ∈ log, IsEnd effect

def Silent (past : List Effect) (effect : Effect) : Prop := Ended past → ¬ IsActivity effect

-- The byte ends a line that is not blank, outside an escape sequence, and the
-- channel still takes the line break.
def CommitsLine (session : ActiveSession) (byte : UInt8) (io : ByteIo) : Prop :=
  session.escapeSeq = false ∧ (byte = 0x0d ∨ (byte = 0x0a ∧ session.lastByte ≠ 0x0d)) ∧ io.writes 0 = true ∧
    session.cmdBuffer.trim ≠ []

structure Handled where
  session : ActiveSession
  byte : UInt8
  io : ByteIo

def Handled.Late (handled : Handled) : Prop :=
  handled.session.isEnded = true ∧ CommitsLine handled.session handled.byte handled.io

-- The bytes that `data` comes to, each with the session it finds.
def handledBytes (platform : Platform) : List (UInt8 × ByteIo) → World → List Handled
  | [],_ => []
  | (byte,io) :: rest,world => ⟨world.session,byte,io⟩ :: match dataByte platform io byte world with
    | (.next,after) => handledBytes platform rest after
    | _ => []

def handledIn (platform : Platform) (world : World) : Callback → List Handled
  | .data bytes => handledBytes platform bytes world
  | _ => []

def handled (platform : Platform) : List Callback → World → List Handled
  | [],_ => []
  | callback :: rest,world => handledIn platform world callback ++ handled platform rest (perform platform world callback)

def Quiet (effect : Effect) : Prop := ¬ IsEnd effect ∧ ¬ IsActivity effect

def Busy (effect : Effect) : Prop := ¬ IsEnd effect

structure Rooted (root : Path) (world : World) : Prop where
  plain : Plain world.session.vfs.currentPath
  rooted : ∀ base, world.session.vfs.mountRoot = some base → base = root

structure Works (root : Path) (kind : Effect → Prop) (before after : World) : Prop where
  grows : Grows kind before.host.log after.host.log
  ended : after.session.isEnded = before.session.isEnded
  rooted : Rooted root before → Rooted root after

structure Finishes (before after : World) : Prop where
  ending : ∃ ending, after.host.log = before.host.log ++ ending ∧ (∀ effect ∈ ending, ¬ IsActivity effect) ∧
    (Ended ending ↔ before.session.isEnded = false)
  ended : after.session.isEnded = true
  vfs : after.session.vfs = before.session.vfs

def Settles (root : Path) (kind : Effect → Prop) (before after : World) : Prop :=
  ∃ middle, Works root kind before middle ∧ (after = middle ∨ Finishes middle after)

section Parts
variable {root : Path} {kind : Effect → Prop}

theorem Works.refl (world : World) : Works root kind world world := ⟨Grows.refl _ _,rfl,id⟩

theorem Works.trans (first : Works root kind before middle) (second : Works root kind middle after) :
    Works root kind before after :=
  ⟨first.grows.trans second.grows,second.ended.trans first.ended,second.rooted ∘ first.rooted⟩

theorem Works.note (world : World) (holds : kind effect) : Works root kind world (world.note effect) :=
  ⟨Grows.one _ holds,rfl,fun rooted => ⟨rooted.plain,rooted.rooted⟩⟩

theorem Works.update (world : World) (change : ActiveSession → ActiveSession)
    (ended : (change world.session).isEnded = world.session.isEnded) (vfs : (change world.session).vfs = world.session.vfs) :
    Works root kind world (world.update change) := by
  refine ⟨Grows.refl _ _,ended,fun rooted => ⟨?_,?_⟩⟩
  · change Plain (change world.session).vfs.currentPath
    rw [vfs]
    exact rooted.plain
  · change ∀ base, (change world.session).vfs.mountRoot = some base → base = root
    rw [vfs]
    exact rooted.rooted

theorem Works.weaken {wider : Effect → Prop} (works : Works root kind before after)
    (includes : ∀ effect, kind effect → wider effect) : Works root wider before after :=
  ⟨works.grows.weaken includes,works.ended,works.rooted⟩

theorem Works.busy (works : Works root Quiet before after) : Works root Busy before after :=
  works.weaken (fun _ quiet => quiet.1)

theorem Works.settles (works : Works root kind before after) : Settles root kind before after :=
  ⟨after,works,Or.inl rfl⟩

theorem Works.then (works : Works root kind before middle) (settles : Settles root kind middle after) :
    Settles root kind before after := by
  obtain ⟨last,later,finish⟩ := settles
  exact ⟨last,works.trans later,finish⟩

theorem sendOutput_works (accepted : Bool) (text : Text) (world : World) :
    Works root Quiet world (sendOutput accepted text world).2 := by
  unfold sendOutput
  split
  · exact (Works.note world ⟨id,id⟩).trans (Works.note _ ⟨id,id⟩)
  · exact Works.refl world

theorem sent_settles (accepted : Bool) (text : Text) (world : World) (rest : World → Flow × World)
    (next : Settles root Quiet (sendOutput accepted text world).2 (rest (sendOutput accepted text world).2).2) :
    Settles root Quiet world (andThen (sendOutput accepted text world) rest).2 := by
  have works : Works root Quiet world (sendOutput accepted text world).2 := sendOutput_works accepted text world
  revert works next
  unfold sendOutput
  cases accepted with
  | true => exact fun next works => works.then next
  | false => exact fun _ works => works.settles

theorem Settles.busy (settles : Settles root Quiet before after) : Settles root Busy before after := by
  obtain ⟨middle,works,finish⟩ := settles
  exact ⟨middle,works.busy,finish⟩

theorem sendPrompt_works (accepted : Bool) (world : World) : Works root Quiet world (sendPrompt accepted world).2 :=
  sendOutput_works accepted _ world

theorem promptAfter_settles (accepted shown : Bool) (text : Text) (world : World) :
    Settles root Quiet world (andThen (sendOutput accepted text world) (sendPrompt shown)).2 :=
  sent_settles accepted text world _ (sendPrompt_works shown _).settles

end Parts

-- What ends a sandbox, what a download does and what a shell command does.
def IsCleanup : Effect → Prop
  | .recorderClosed => True
  | .removed _ _ => True
  | effect => IsCapture effect

def IsDownload : Effect → Prop
  | .fetchStarted _ => True
  | .emitted (.payloadCaptured _) => True
  | effect => IsFetch effect

def IsShell : Effect → Prop
  | .diskChanged _ => True
  | .dispatched _ _ => True
  | _ => False

theorem cleanup_quiet (effect : Effect) (cleans : IsCleanup effect) : Quiet effect := by
  constructor
  · intro ended
    unfold IsEnd at ended
    split at ended
    · exact cleans
    · exact ended
  · intro active
    unfold IsActivity at active
    split at active
    · exact cleans
    · exact cleans
    · exact cleans
    · exact cleans
    · exact active

theorem fetch_quiet (effect : Effect) (fetched : IsFetch effect) : Quiet effect := by
  constructor
  · intro ended
    unfold IsEnd at ended
    split at ended
    · exact fetched
    · exact ended
  · intro active
    unfold IsActivity at active
    split at active
    · exact fetched
    · exact fetched
    · exact fetched
    · exact fetched
    · exact active

theorem download_busy (effect : Effect) (downloads : IsDownload effect) : Busy effect := by
  intro ended
  unfold IsEnd at ended
  split at ended
  · exact downloads
  · exact ended

theorem shell_busy (effect : Effect) (changes : IsShell effect) : Busy effect := by
  intro ended
  unfold IsEnd at ended
  split at ended
  · exact changes
  · exact ended

theorem capture_cleanup (effect : Effect) (captured : IsCapture effect) : IsCleanup effect := by
  unfold IsCleanup
  split
  · trivial
  · trivial
  · exact captured

theorem fetch_download (effect : Effect) (fetched : IsFetch effect) : IsDownload effect := by
  unfold IsDownload
  split
  · trivial
  · trivial
  · exact fetched

theorem cleanUp_grows (platform : Platform) (engine : ForensicsEngine) (info : SessionMeta) (io : CleanupIo)
    (upperDir : Path) (host : Host) : Grows IsCleanup host.log (cleanUp platform engine info io upperDir host).log := by
  have analyzed : Grows IsCleanup host.log (analyzeUpperdir platform.sha256 engine info io.forensics upperDir host).2.log :=
    (analyzeUpperdir_grows platform.sha256 engine info io.forensics upperDir host).weaken capture_cleanup
  unfold cleanUp removeSessionDir
  split
  · exact analyzed
  · exact analyzed.trans (Grows.one _ trivial)

theorem finishSandbox_grows (platform : Platform) (engine : ForensicsEngine) (info : SessionMeta) (io : TeardownIo)
    (sandbox : SandboxHandle) (host : Host) :
    Grows IsCleanup host.log (finishSandbox platform engine info io sandbox host).log := by
  unfold finishSandbox sandboxReleased SandboxHandle.teardown
  cases sandbox.overlay with
  | none => exact Grows.refl _ _
  | some overlay => exact cleanUp_grows platform engine info io.cleanup overlay.upperDir _

-- The end is announced once, and what follows it announces nothing.
theorem teardown_log (platform : Platform) (io : TeardownIo) (world : World) (active : world.session.isEnded = false) :
    ∃ later, (teardown platform io world).host.log =
      world.host.log ++ .emitted (endEvent io world.session.info) :: later ∧ ∀ effect ∈ later, IsCleanup effect := by
  have closed : Grows IsCleanup (world.host.log ++ [.emitted (endEvent io world.session.info)])
      (announceEnd io world.session.info world.host).log := Grows.one _ trivial
  have finished : Grows IsCleanup (world.host.log ++ [.emitted (endEvent io world.session.info)])
      (teardown platform io world).host.log := by
    unfold teardown teardownSession
    rw [active]
    cases world.session.sandbox with
    | none => exact closed
    | some sandbox => exact closed.trans (finishSandbox_grows platform _ _ io sandbox _)
  obtain ⟨later,same,cleans⟩ := finished
  exact ⟨later,by rw [same,List.append_assoc,List.singleton_append],cleans⟩

theorem teardown_ended (platform : Platform) (io : TeardownIo) (world : World) (ended : world.session.isEnded = true) :
    teardown platform io world = world := by
  unfold teardown teardownSession
  rw [if_pos ended]

theorem teardown_session (platform : Platform) (io : TeardownIo) (world : World) :
    ∃ sandbox, (teardown platform io world).session = {world.session with isEnded := true,sandbox := sandbox} := by
  cases ended : world.session.isEnded with
  | true => exact ⟨world.session.sandbox,by rw [teardown_ended platform io world ended,← ended]⟩
  | false =>
    unfold teardown teardownSession
    rw [ended]
    cases held : world.session.sandbox with
    | none => exact ⟨none,by simp [← held]⟩
    | some sandbox => exact ⟨none,rfl⟩

theorem teardown_finishes (platform : Platform) (io : TeardownIo) (world : World) :
    Finishes world (teardown platform io world) := by
  obtain ⟨sandbox,session⟩ := teardown_session platform io world
  refine ⟨?_,by rw [session],by rw [session]⟩
  cases active : world.session.isEnded with
  | true =>
    rw [teardown_ended platform io world active]
    exact ⟨[],by simp,by simp,by simp [Ended]⟩
  | false =>
    obtain ⟨later,same,cleans⟩ := teardown_log platform io world active
    refine ⟨_,same,?_,?_⟩
    · rw [List.forall_mem_cons]
      exact ⟨id,fun effect member => (cleanup_quiet effect (cleans effect member)).2⟩
    · exact ⟨fun _ => rfl,fun _ => ⟨_,List.mem_cons_self,trivial⟩⟩

section Responses
variable {root : Path} (platform : Platform) (io : ByteIo)

theorem awaitFetch_works (job : FetchJob) (isPipe : Bool) (world : World) :
    Works root IsDownload world (awaitFetch platform io job isPipe world).2 := by
  unfold awaitFetch
  split
  · have fetched : Works root IsDownload world {world with host := (fetchPayloadBlocking platform io.fetch job.url
        job.quarantineDir job.mountRoot job.maxBytes world.host).2} :=
      ⟨(fetch_grows platform io.fetch _ _ _ _ _).weaken fetch_download,rfl,fun rooted => ⟨rooted.plain,rooted.rooted⟩⟩
    dsimp only
    split
    · exact fetched.trans (Works.note _ trivial)
    · exact fetched
  · exact ⟨Grows.refl _ _,rfl,fun rooted => ⟨rooted.plain,rooted.rooted⟩⟩

theorem awaitFetch_session (job : FetchJob) (isPipe : Bool) (world : World) :
    (awaitFetch platform io job isPipe world).2.session = world.session := by
  unfold awaitFetch
  split
  · dsimp only
    split
    · rfl
    · rfl
  · rfl

theorem fetchLands_session (landed : FetchIo) (world : World) :
    (SessionInput.fetchLands platform landed world).session = world.session := by
  unfold SessionInput.fetchLands
  split
  · rfl
  · rfl

theorem fetchLands_works (landed : FetchIo) (world : World) :
    Works root IsFetch world (SessionInput.fetchLands platform landed world) := by
  unfold SessionInput.fetchLands
  split
  · exact Works.refl world
  · exact ⟨fetch_grows platform landed _ _ _ _ _,rfl,fun rooted => ⟨rooted.plain,rooted.rooted⟩⟩

theorem startFetch_works (cmd url : Text) (world : World) :
    Works root IsDownload world (startFetch platform io cmd url world).2 := by
  have counted : Works root IsDownload world
      (world.update (fun session => {session with fetchCount := session.fetchCount+1})) := Works.update world _ rfl rfl
  have started : IsDownload (.fetchStarted url) := trivial
  exact (counted.trans (Works.note _ started)).trans (awaitFetch_works platform io _ _ _)

theorem download_works (cmd : Text) (world : World) : Works root IsDownload world (download platform io cmd world).2 := by
  unfold download
  split
  · exact Works.refl world
  · split
    · exact Works.refl world
    · exact startFetch_works platform io cmd _ world

theorem download_session (cmd : Text) (world : World) : ∃ count,
    (download platform io cmd world).2.session = {world.session with fetchCount := count} := by
  unfold download
  split
  · exact ⟨_,rfl⟩
  · split
    · exact ⟨_,rfl⟩
    · unfold startFetch
      exact ⟨_,awaitFetch_session platform io _ _ _⟩

theorem runShell_works (cmd : Text) (world : World) (rooted : Rooted root world) :
    Works root IsShell world (runShell platform io cmd world).2 := by
  have keeps : Keeps (loggedFs platform) root (fun host => Grows IsShell world.host.log host.log) :=
    fun host op _ grown => grown.trans (Grows.one _ trivial)
  have held : Held root (fun host => Grows IsShell world.host.log host.log) ⟨world.session.vfs,world.host⟩ :=
    ⟨Grows.refl _ _,rooted.plain,rooted.rooted⟩
  have answered := Shell.dispatch_held io.date keeps held cmd
  unfold runShell
  generalize Shell.dispatch (loggedFs platform) io.date cmd ⟨world.session.vfs,world.host⟩ = answer at answered ⊢
  have shown : Works root IsShell world
      {world with session := {world.session with vfs := answer.2.vfs},host := answer.2.host} :=
    ⟨answered.kept,rfl,fun _ => ⟨answered.plain,answered.rooted⟩⟩
  exact shown.trans (Works.note _ trivial)

theorem respond_works (cmd : Text) (world : World) (rooted : Rooted root world) :
    Works root Busy world (respond platform io cmd world).2 := by
  unfold respond
  split
  · exact (download_works platform io cmd world).weaken download_busy
  · exact (runShell_works platform io cmd world rooted).weaken shell_busy

theorem sayGoodbye_settles (accepted : Bool) (world : World) :
    Settles root Quiet world (sayGoodbye platform io accepted world).2 := by
  apply sent_settles
  split
  · exact ⟨_,Works.note _ ⟨id,id⟩,Or.inr (teardown_finishes platform io.teardown _)⟩
  · exact (Works.refl _).settles

theorem runCommand_settles (cmd : Text) (world : World) (rooted : Rooted root world) :
    ∃ told event, Works root Quiet world told ∧
      Settles root Busy (told.note (.emitted (.commandRun event))) (runCommand platform io cmd world).2 := by
  have recorded : Works root Quiet world (world.note (.recorded .input (cmd ++ ['\n']))) := Works.note world ⟨id,id⟩
  refine ⟨_,commandEvent io world.session.info cmd,recorded,?_⟩
  unfold runCommand
  dsimp only
  generalize announced : World.note (World.note world _) _ = told
  have toldRooted : Rooted root told := by
    rw [← announced]
    exact ⟨rooted.plain,rooted.rooted⟩
  split
  · have goodbye : Settles root Quiet told (sayGoodbye platform io (io.writes 1) told).2 :=
      sayGoodbye_settles platform io (io.writes 1) told
    cases said : sayGoodbye platform io (io.writes 1) told with
    | mk flow left =>
      rw [said] at goodbye
      cases flow <;> exact goodbye.busy
  · exact (respond_works platform io cmd told toldRooted).then
      (promptAfter_settles (io.writes 1) (io.writes 2) _ _).busy

theorem endLine_idle (world : World) (idle : io.writes 0 = false ∨ world.session.cmdBuffer.trim = []) :
    Settles root Quiet world (endLine platform io world).2 := by
  unfold endLine
  have sent : Works root Quiet world (sendOutput (io.writes 0) Text.crlf world).2 := sendOutput_works _ _ world
  revert sent
  cases accepted : io.writes 0 with
  | false => exact fun sent => sent.settles
  | true =>
    intro sent
    have blank : world.session.cmdBuffer.trim = [] := by simpa [accepted] using idle
    refine sent.then ?_
    simp only [sendOutput,if_true,andThen]
    rw [if_pos (show ((world.note _).note _).session.cmdBuffer.trim = [] from blank)]
    exact (Works.update _ _ rfl rfl).then (sendPrompt_works (io.writes 1) _).settles

def brokenOff (world : World) : World :=
  ((world.note (.sent (encode Text.crlf))).note (.recorded .output Text.crlf)).update (fun session => {session with cmdBuffer := []})

theorem endLine_runs (world : World) (accepted : io.writes 0 = true) (named : world.session.cmdBuffer.trim ≠ []) :
    endLine platform io world = runCommand platform io world.session.cmdBuffer.trim (brokenOff world) := by
  unfold endLine
  rw [accepted]
  simp only [sendOutput,if_true,andThen]
  rw [if_neg (show ¬ ((world.note _).note _).session.cmdBuffer.trim = [] from named)]
  rfl

theorem endLine_commits (world : World) (rooted : Rooted root world) (accepted : io.writes 0 = true)
    (named : world.session.cmdBuffer.trim ≠ []) :
    ∃ told event, Works root Quiet world told ∧
      Settles root Busy (told.note (.emitted (.commandRun event))) (endLine platform io world).2 := by
  have sent : Works root Quiet world ((world.note (.sent (encode Text.crlf))).note (.recorded .output Text.crlf)) :=
    (Works.note world ⟨id,id⟩).trans (Works.note _ ⟨id,id⟩)
  have cleared := sent.trans (Works.update _ (fun session => {session with cmdBuffer := []}) rfl rfl)
  obtain ⟨told,event,works,settles⟩ :=
    runCommand_settles platform io world.session.cmdBuffer.trim _ (cleared.rooted rooted)
  refine ⟨told,event,cleared.trans works,?_⟩
  rw [endLine_runs platform io world accepted named]
  exact settles

theorem eraseLast_settles (world : World) : Settles root Quiet world (eraseLast io world).2 := by
  unfold eraseLast
  split
  · exact (Works.refl _).settles
  · exact ((Works.update _ _ rfl rfl).trans (sendOutput_works _ _ _)).settles

theorem interrupt_settles (world : World) : Settles root Quiet world (interrupt io world).2 := by
  have cleared : Works root Quiet world (world.update (fun session => {session with cmdBuffer := []})) :=
    Works.update world _ rfl rfl
  exact cleared.then (promptAfter_settles (io.writes 0) (io.writes 1) _ _)

theorem endOfInput_settles (world : World) : Settles root Quiet world (endOfInput platform io world).2 := by
  unfold endOfInput
  split
  · exact sayGoodbye_settles platform io (io.writes 0) world
  · exact (Works.refl _).settles

theorem typed_settles (byte : UInt8) (world : World) : Settles root Quiet world (typed io byte world).2 := by
  unfold typed
  split
  · exact (Works.refl _).settles
  · exact ((Works.update _ _ rfl rfl).trans (sendOutput_works _ _ _)).settles

theorem seen_works (byte : UInt8) (world : World) :
    Works root Quiet world (world.update (fun session => {session with lastByte := byte})) := Works.update world _ rfl rfl

theorem dataByte_idle (byte : UInt8) (world : World) (idle : ¬ CommitsLine world.session byte io) :
    Settles root Quiet world (dataByte platform io byte world).2 := by
  have seen : Works root Quiet world (world.update (fun session => {session with lastByte := byte})) := seen_works byte world
  have step := dataByte_step platform io byte world
  generalize dataByte platform io byte world = result at step ⊢
  cases step with
  | escape =>
    exact (Works.update world (fun session => {session with lastByte := byte,escapeSeq := true,escapeLen := 0}) rfl rfl).settles
  | sequence => exact (Works.update world (escaped byte) rfl rfl).settles
  | ignored => exact seen.settles
  | erases => exact seen.then (eraseLast_settles io _)
  | interrupts => exact seen.then (interrupt_settles io _)
  | types => exact seen.then (typed_settles io byte _)
  | leaves => exact seen.then (endOfInput_settles platform io _)
  | ends terminates =>
    refine seen.then (endLine_idle platform io _ ?_)
    by_contra committed
    rw [not_or] at committed
    exact idle ⟨terminates.1,terminates.2,by simpa using committed.1,committed.2⟩

theorem dataByte_ends (byte : UInt8) (world : World) (plain : world.session.escapeSeq = false)
    (terminator : byte = 0x0d ∨ (byte = 0x0a ∧ world.session.lastByte ≠ 0x0d)) :
    dataByte platform io byte world =
      endLine platform io (world.update (fun session => {session with lastByte := byte})) := by
  have notEscape : ¬ byte = 0x1b := by
    rcases terminator with rfl | ⟨rfl,_⟩
    · decide
    · decide
  have ends : byte = 0x0d ∨ byte = 0x0a := terminator.imp_right And.left
  have separate : ¬ (byte = 0x0a ∧ world.session.lastByte = 0x0d) := by
    intro given
    obtain ⟨rfl,last⟩ := given
    rcases terminator with carriage | ⟨_,other⟩
    · exact absurd carriage (by decide)
    · exact other last
  unfold dataByte
  dsimp only
  rw [if_neg notEscape,plain,if_neg Bool.false_ne_true,if_pos ends,if_neg separate]

theorem dataByte_commits (byte : UInt8) (world : World) (rooted : Rooted root world)
    (commits : CommitsLine world.session byte io) :
    ∃ told event, Works root Quiet world told ∧
      Settles root Busy (told.note (.emitted (.commandRun event))) (dataByte platform io byte world).2 := by
  obtain ⟨plain,terminator,accepted,named⟩ := commits
  have seen : Works root Quiet world (world.update (fun session => {session with lastByte := byte})) := seen_works byte world
  obtain ⟨told,event,works,settles⟩ := endLine_commits platform io _ (seen.rooted rooted) accepted
    (show (world.update _).session.cmdBuffer.trim ≠ [] from named)
  refine ⟨told,event,seen.trans works,?_⟩
  rw [dataByte_ends platform io byte world plain terminator]
  exact settles

end Responses

-- The flag of the session and the log agree on whether it has ended.
structure Consistent (root : Path) (world : World) : Prop where
  ended : world.session.isEnded = true ↔ Ended world.host.log
  rooted : Rooted root world

theorem ended_append (log new : List Effect) : Ended (log ++ new) ↔ Ended log ∨ Ended new := by
  simp [Ended,or_and_right,exists_or]

theorem busy_ended (grows : Grows Busy before after) : Ended after ↔ Ended before := by
  obtain ⟨new,rfl,busy⟩ := grows
  rw [ended_append]
  constructor
  · intro either
    rcases either with old | ⟨effect,member,ended⟩
    · exact old
    · exact absurd ended (busy effect member)
  · exact Or.inl

theorem Consistent.works (consistent : Consistent root before) (works : Works root Busy before after) :
    Consistent root after := by
  refine ⟨?_,works.rooted consistent.rooted⟩
  rw [works.ended,busy_ended works.grows]
  exact consistent.ended

theorem Consistent.finishes (consistent : Consistent root before) (finishes : Finishes before after) :
    Consistent root after := by
  obtain ⟨ending,same,_,ends⟩ := finishes.ending
  refine ⟨?_,?_⟩
  · rw [finishes.ended,same,ended_append,← consistent.ended,ends]
    cases before.session.isEnded <;> simp
  · refine ⟨?_,?_⟩
    · rw [finishes.vfs]
      exact consistent.rooted.plain
    · rw [finishes.vfs]
      exact consistent.rooted.rooted

theorem Consistent.settles (consistent : Consistent root before) (settles : Settles root Busy before after) :
    Consistent root after := by
  obtain ⟨middle,works,rfl | finishes⟩ := settles
  · exact consistent.works works
  · exact (consistent.works works).finishes finishes

theorem idle_clean (log new : List Effect) (idle : ∀ effect ∈ new, ¬ IsActivity effect) :
    Clean Silent (log ++ new) ↔ Clean Silent log := by
  rw [clean_append]
  have free : CleanAfter Silent log new := cleanAfter_free log new (fun effect member _ _ => idle effect member)
  exact ⟨And.left,fun clean => ⟨clean,free⟩⟩

theorem Finishes.clean (finishes : Finishes before after) :
    Clean Silent after.host.log ↔ Clean Silent before.host.log := by
  obtain ⟨ending,same,idle,_⟩ := finishes.ending
  rw [same]
  exact idle_clean _ ending idle

theorem Settles.clean (settles : Settles root Quiet before after) :
    Clean Silent after.host.log ↔ Clean Silent before.host.log := by
  obtain ⟨middle,works,last⟩ := settles
  obtain ⟨new,same,quiet⟩ := works.grows
  have kept : Clean Silent middle.host.log ↔ Clean Silent before.host.log := by
    rw [same]
    exact idle_clean _ new (fun effect member => (quiet effect member).2)
  rcases last with rfl | finishes
  · exact kept
  · exact finishes.clean.trans kept

theorem unended_after (past new : List Effect) (open_ : ¬ Ended (past ++ new)) : CleanAfter Silent past new := by
  induction new generalizing past with
  | nil => trivial
  | cons effect later ih =>
    refine ⟨fun ended => absurd ((ended_append _ _).mpr (Or.inl ended)) open_,ih _ ?_⟩
    rw [List.append_assoc]
    exact open_

theorem Consistent.open_clean (consistent : Consistent root world) (active : world.session.isEnded = false) :
    Clean Silent world.host.log := by
  apply unended_after
  intro ended
  have flag := consistent.ended.mpr ended
  rw [active] at flag
  cases flag

-- As long as the session has not ended, all that `data` does is in order.
theorem Settles.open_clean (settles : Settles root Busy before after) (consistent : Consistent root before)
    (active : before.session.isEnded = false) : Clean Silent after.host.log := by
  obtain ⟨middle,works,last⟩ := settles
  have kept : Clean Silent middle.host.log := (consistent.works works).open_clean (works.ended.trans active)
  rcases last with rfl | finishes
  · exact kept
  · exact finishes.clean.mpr kept

theorem Settles.clean_before (settles : Settles root kind before after) (clean : Clean Silent after.host.log) :
    Clean Silent before.host.log := by
  obtain ⟨middle,works,last⟩ := settles
  obtain ⟨new,same,_⟩ := works.grows
  have kept : Clean Silent middle.host.log := by
    rcases last with rfl | finishes
    · exact clean
    · exact finishes.clean.mp clean
  rw [same] at kept
  exact ((clean_append _ _).mp kept).1

theorem command_breaks (log : List Effect) (event : CommandRunEvent) (ended : Ended log) :
    ¬ Clean Silent (log ++ [.emitted (.commandRun event)]) := by
  intro clean
  exact ((clean_append _ _).mp clean).2.1 ended trivial

-- One byte: a command is run at once when a line is committed, and only then.
theorem dataByte_silent (platform : Platform) (io : ByteIo) (byte : UInt8) (world : World) (consistent : Consistent root world) :
    Consistent root (dataByte platform io byte world).2 ∧
      (Clean Silent (dataByte platform io byte world).2.host.log ↔
        Clean Silent world.host.log ∧ ¬ Handled.Late ⟨world.session,byte,io⟩) := by
  by_cases commits : CommitsLine world.session byte io
  · obtain ⟨told,event,works,settles⟩ := dataByte_commits platform io byte world consistent.rooted commits
    have announced : Consistent root (told.note (.emitted (.commandRun event))) :=
      consistent.works (works.busy.trans (Works.note told id))
    refine ⟨announced.settles settles,?_⟩
    cases active : world.session.isEnded with
    | false =>
      have before := consistent.open_clean active
      have after := settles.open_clean announced (works.ended.trans active)
      simp [before,after,Handled.Late,active]
    | true =>
      have ended : Ended told.host.log := (consistent.works works.busy).ended.mp (works.ended.trans active)
      constructor
      · intro clean
        exact absurd (settles.clean_before clean) (command_breaks told.host.log event ended)
      · intro clean
        exact absurd ⟨active,commits⟩ clean.2
  · have settles : Settles root Quiet world (dataByte platform io byte world).2 := dataByte_idle platform io byte world commits
    refine ⟨consistent.settles settles.busy,settles.clean.trans ?_⟩
    exact ⟨fun clean => ⟨clean,fun late => commits late.2⟩,And.left⟩

theorem dataLoop_silent (platform : Platform) (bytes : List (UInt8 × ByteIo)) (world : World)
    (consistent : Consistent root world) :
    Consistent root (dataLoop platform bytes world).2 ∧
      (Clean Silent (dataLoop platform bytes world).2.host.log ↔
        Clean Silent world.host.log ∧ ∀ seen ∈ handledBytes platform bytes world, ¬ seen.Late) := by
  induction bytes generalizing world with
  | nil => simp [dataLoop,handledBytes,consistent]
  | cons received rest ih =>
    obtain ⟨byte,io⟩ := received
    obtain ⟨next,clean⟩ := dataByte_silent platform io byte world consistent
    simp only [dataLoop,handledBytes,List.forall_mem_cons]
    cases step : dataByte platform io byte world with
    | mk flow after =>
      rw [step] at next clean
      cases flow with
      | next =>
        obtain ⟨last,later⟩ := ih after next
        refine ⟨last,?_⟩
        simp only [andThen]
        rw [later,clean,and_assoc]
      | returned => exact ⟨next,by simpa [andThen] using clean⟩
      | failed => exact ⟨next,by simpa [andThen] using clean⟩

theorem data_silent (platform : Platform) (bytes : List (UInt8 × ByteIo)) (world : World)
    (consistent : Consistent root world) :
    Consistent root (data platform bytes world).2 ∧
      (Clean Silent (data platform bytes world).2.host.log ↔
        Clean Silent world.host.log ∧ ∀ seen ∈ handledBytes platform bytes world, ¬ seen.Late) := by
  obtain ⟨last,clean⟩ := dataLoop_silent platform bytes world consistent
  unfold data
  cases loop : dataLoop platform bytes world with
  | mk flow after =>
    rw [loop] at last clean
    cases flow with
    | next =>
      have flushed : Settles root Quiet after (after.note .recorderFlushed) := (Works.note after ⟨id,id⟩).settles
      exact ⟨last.settles flushed.busy,flushed.clean.trans clean⟩
    | returned => exact ⟨last,clean⟩
    | failed => exact ⟨last,clean⟩

-- The other callbacks run no command, whether or not the session has ended.
theorem perform_silent (platform : Platform) (world : World) (consistent : Consistent root world) (callback : Callback) :
    Consistent root (perform platform world callback) ∧
      (Clean Silent (perform platform world callback).host.log ↔
        Clean Silent world.host.log ∧ ∀ seen ∈ handledIn platform world callback, ¬ seen.Late) := by
  have quiet : ∀ after, Settles root Quiet world after → Consistent root after ∧
      (Clean Silent after.host.log ↔ Clean Silent world.host.log ∧ ∀ seen ∈ ([] : List Handled), ¬ seen.Late) := by
    intro after settles
    exact ⟨consistent.settles settles.busy,by simpa using settles.clean⟩
  cases callback with
  | authPassword now user password => exact quiet _ (Works.note world ⟨id,id⟩).settles
  | authPublickey now user algorithm fingerprint => exact quiet _ (Works.note world ⟨id,id⟩).settles
  | shellRequest now writes =>
    exact quiet _ (Works.then (Works.note world ⟨id,id⟩) (promptAfter_settles (writes 0) (writes 1) banner _))
  | data bytes => exact data_silent platform bytes world consistent
  | channelClose io => exact quiet _ ⟨world,Works.refl world,Or.inr (teardown_finishes platform io world)⟩
  | fetchLands io =>
    apply quiet
    exact ((fetchLands_works platform io world).weaken fetch_quiet).settles

theorem run_silent (platform : Platform) (callbacks : List Callback) (world : World) (consistent : Consistent root world) :
    Clean Silent (run platform callbacks world).host.log ↔
      Clean Silent world.host.log ∧ ∀ seen ∈ handled platform callbacks world, ¬ seen.Late := by
  induction callbacks generalizing world with
  | nil => simp [run,handled]
  | cons callback rest ih =>
    obtain ⟨next,clean⟩ := perform_silent platform world consistent callback
    change Clean Silent (run platform rest (perform platform world callback)).host.log ↔ _
    rw [ih _ next,clean]
    simp only [handled,List.forall_mem_append]
    rw [and_assoc]

def admitted (info : SessionMeta) (config : SessionConfig) (forensics : ForensicsEngine) (sandbox : Option SandboxHandle)
    (rootfs : Path) (layer : Layer) : World :=
  ⟨newClient info config forensics sandbox rootfs,⟨layer,[]⟩,[]⟩

theorem admitted_consistent (info : SessionMeta) (config : SessionConfig) (forensics : ForensicsEngine)
    (sandbox : Option SandboxHandle) (rootfs : Path) (layer : Layer) :
    ∃ root, Consistent root (admitted info config forensics sandbox rootfs layer) := by
  refine ⟨((sandbox.map SandboxHandle.rootDir).getD []),?_,?_⟩
  · simp [admitted,newClient,Ended]
  · refine ⟨?_,?_⟩
    · intro part member
      rw [List.mem_singleton.mp member]
      decide
    · intro base same
      change sandbox.map SandboxHandle.rootDir = some base at same
      rw [same]
      rfl

theorem silence_exact (platform : Platform) (info : SessionMeta) (config : SessionConfig) (forensics : ForensicsEngine)
    (sandbox : Option SandboxHandle) (rootfs : Path) (layer : Layer) (callbacks : List Callback) :
    Clean Silent (run platform callbacks (admitted info config forensics sandbox rootfs layer)).host.log ↔
      ∀ seen ∈ handled platform callbacks (admitted info config forensics sandbox rootfs layer),
        ¬ (seen.session.isEnded = true ∧ CommitsLine seen.session seen.byte seen.io) := by
  obtain ⟨root,consistent⟩ := admitted_consistent info config forensics sandbox rootfs layer
  have start : Clean Silent (admitted info config forensics sandbox rootfs layer).host.log := trivial
  exact (run_silent platform callbacks _ consistent).trans (and_iff_right start)

-- Ctrl-D and a command in one packet, on a host where everything succeeds.
def plainPlatform : Platform where
  kernel := upperOnly
  overlay := overlayAt [] "7".toList false
  sha256 _ := []
  parseUrl _ := none
  geoip _ := none

def plainTeardown : TeardownIo :=
  ⟨0,0,true,⟨⟨true,fun _ => true,fun _ => ⟨true,true,true,true,true,0⟩⟩,true⟩⟩

def plainIo : ByteIo :=
  ⟨0,fun _ => true,true,[],⟨fun _ _ => .ok [],true,fun _ _ => [],fun _ _ => none,true,true⟩,true,plainTeardown⟩

def plainSession : World :=
  admitted ⟨"7",.v4 198 51 100 45,40022⟩ ⟨"./quarantine".toList,false,0,0⟩ ⟨"./quarantine".toList,6,33554432⟩
    (some ⟨"7".toList,some plainPlatform.overlay,plainPlatform.overlay.upperDir⟩) ["rootfs".toList] ⟨scriptDirs,none⟩

def ctrlD : List (UInt8 × ByteIo) := [(0x04,plainIo),(0x69,plainIo),(0x64,plainIo)]

theorem command_runs_after_ctrl_d :
    ¬ Clean Silent (run plainPlatform [.data (ctrlD ++ [(0x0d,plainIo)])] plainSession).host.log := by
  obtain ⟨root,consistent⟩ : ∃ root, Consistent root plainSession := admitted_consistent _ _ _ _ _ _
  rw [run_silent plainPlatform _ plainSession consistent]
  intro given
  obtain ⟨_,none⟩ := given
  have seen : (handled plainPlatform [.data (ctrlD ++ [(0x0d,plainIo)])] plainSession)[3]? =
      some ⟨(dataLoop plainPlatform ctrlD plainSession).2.session,0x0d,plainIo⟩ := rfl
  exact none _ (List.mem_of_getElem? seen) ⟨rfl,rfl,Or.inl rfl,rfl,by decide⟩

end AegisHoneypot.SessionSilence
