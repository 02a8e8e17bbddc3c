import AegisHoneypot.SessionMoves
import AegisHoneypot.SessionSilence

namespace AegisHoneypot.SessionEnding
open FileTree Utf8Text GatewayHost OverlaySandbox Vfs Forensics PayloadFetch SessionHandler SessionInput SessionMoves
open SessionSilence Chronicle

def isStartOf (id : String) : TelemetryEvent → Bool
  | .sessionStart event => event.sessionId == id
  | _ => false

def isEndOf (id : String) : TelemetryEvent → Bool
  | .sessionEnd event => event.sessionId == id
  | _ => false

def starts (id : String) (log : List Effect) : Nat := (emissions log).countP (isStartOf id)

def ends (id : String) (log : List Effect) : Nat := (emissions log).countP (isEndOf id)

def Bracketed (id : String) (log : List Effect) : Prop :=
  (∃ event ∈ emissions log, isStartOf id event = true) → (emissions log).countP (isEndOf id) = 1

-- The byte is Ctrl-D on an empty line or ends a line `exit` or `logout`, and
-- the goodbye goes through.
def EndsSession (session : ActiveSession) (byte : UInt8) (io : ByteIo) : Prop :=
  io.closes = true ∧
    ((session.escapeSeq = false ∧ byte = 0x04 ∧ session.cmdBuffer = [] ∧ io.writes 0 = true) ∨
     (CommitsLine session byte io ∧ io.writes 1 = true ∧
      (session.cmdBuffer.trim.trim = "exit".toList ∨ session.cmdBuffer.trim.trim = "logout".toList)))

section Flag
variable (platform : Platform) (io : ByteIo)

theorem sendOutput_session (accepted : Bool) (text : Text) (world : World) :
    (sendOutput accepted text world).2.session = world.session := by
  unfold sendOutput
  split <;> rfl

theorem andThen_ended (result : Flow × World) (rest : World → Flow × World)
    (same : ∀ world, (rest world).2.session.isEnded = world.session.isEnded) :
    (andThen result rest).2.session.isEnded = result.2.session.isEnded := by
  obtain ⟨flow,world⟩ := result
  cases flow with
  | next => exact same world
  | returned => rfl
  | failed => rfl

theorem sendPrompt_ended (accepted : Bool) (world : World) :
    (sendPrompt accepted world).2.session.isEnded = world.session.isEnded := by
  unfold sendPrompt
  rw [sendOutput_session]

theorem sendOutput_ended (accepted : Bool) (text : Text) (world : World) :
    (sendOutput accepted text world).2.session.isEnded = world.session.isEnded := by
  rw [sendOutput_session]

theorem respond_ended (cmd : Text) (world : World) :
    (respond platform io cmd world).2.session.isEnded = world.session.isEnded := by
  unfold respond
  split
  · have works : Works [] IsDownload world (download platform io cmd world).2 := download_works platform io cmd world
    exact works.ended
  · rfl

theorem sayGoodbye_ended (logout : Bool) (world : World) :
    (sayGoodbye platform io logout world).2.session.isEnded = true ↔
      world.session.isEnded = true ∨ (logout = true ∧ io.closes = true) := by
  unfold sayGoodbye sendOutput
  cases logout with
  | false => simp [andThen]
  | true =>
    simp only [if_true,andThen]
    cases closes : io.closes with
    | false => simp [World.note]
    | true =>
      simp only [if_true,and_self,or_true,iff_true]
      exact (teardown_finishes platform io.teardown _).ended

theorem runCommand_ended (cmd : Text) (world : World) :
    (runCommand platform io cmd world).2.session.isEnded = true ↔ world.session.isEnded = true ∨
      (io.closes = true ∧ io.writes 1 = true ∧ (cmd.trim = "exit".toList ∨ cmd.trim = "logout".toList)) := by
  unfold runCommand
  dsimp only
  split
  · rename_i leaves
    rw [andThen_ended _ _ (fun _ => rfl),sayGoodbye_ended]
    simp only [leaves,and_true]
    rw [and_comm (a := io.writes 1 = true)]
    rfl
  · rename_i stays
    rw [andThen_ended _ _ (sendPrompt_ended _),sendOutput_ended,respond_ended]
    simp only [stays,and_false,or_false]
    rfl

theorem endLine_ended (world : World) :
    (endLine platform io world).2.session.isEnded = true ↔ world.session.isEnded = true ∨
      (io.writes 0 = true ∧ world.session.cmdBuffer.trim ≠ [] ∧ io.closes = true ∧ io.writes 1 = true ∧
        (world.session.cmdBuffer.trim.trim = "exit".toList ∨ world.session.cmdBuffer.trim.trim = "logout".toList)) := by
  unfold endLine sendOutput
  cases io.writes 0 with
  | false => simp [andThen]
  | true =>
    simp only [if_true,andThen,true_and]
    change (if world.session.cmdBuffer.trim = [] then _ else _ : Flow × World).2.session.isEnded = true ↔ _
    split
    · rename_i blank
      rw [sendPrompt_ended]
      simp only [blank,ne_eq,not_true,false_and,or_false]
      rfl
    · rename_i named
      rw [runCommand_ended]
      simp only [ne_eq,named,not_false_iff,true_and]
      rfl

theorem eraseLast_ended (world : World) : (eraseLast io world).2.session.isEnded = world.session.isEnded := by
  unfold eraseLast
  split
  · rfl
  · rw [sendOutput_ended]
    rfl

theorem interrupt_ended (world : World) : (interrupt io world).2.session.isEnded = world.session.isEnded := by
  unfold interrupt
  rw [andThen_ended _ _ (sendPrompt_ended _),sendOutput_ended]
  rfl

theorem endOfInput_ended (world : World) :
    (endOfInput platform io world).2.session.isEnded = true ↔ world.session.isEnded = true ∨
      (world.session.cmdBuffer = [] ∧ io.writes 0 = true ∧ io.closes = true) := by
  unfold endOfInput
  split
  · rename_i blank
    rw [sayGoodbye_ended]
    simp only [blank,true_and]
  · rename_i typed
    simp only [typed,false_and,or_false]

theorem typed_ended (byte : UInt8) (world : World) : (typed io byte world).2.session.isEnded = world.session.isEnded := by
  unfold typed
  split
  · rfl
  · rw [sendOutput_ended]
    rfl

theorem dataByte_ended (byte : UInt8) (world : World) :
    (dataByte platform io byte world).2.session.isEnded = true ↔
      world.session.isEnded = true ∨ EndsSession world.session byte io := by
  have stays : ∀ after : World, Inner world.session byte → after.session.isEnded = world.session.isEnded →
      (after.session.isEnded = true ↔ world.session.isEnded = true ∨ EndsSession world.session byte io) := by
    intro after inner same
    have idle : ¬ EndsSession world.session byte io := by
      intro ends
      rcases ends.2 with ⟨plain,leaves,_⟩ | ⟨commits,_⟩
      · exact inner.stays ⟨plain,leaves⟩
      · exact inner.open_ ⟨commits.1,commits.2.1⟩
    rw [same,or_iff_left idle]
  have step := dataByte_step platform io byte world
  generalize dataByte platform io byte world = result at step ⊢
  cases step with
  | escape inner => exact stays _ inner rfl
  | sequence inner => exact stays _ inner rfl
  | ignored inner => exact stays _ inner rfl
  | erases inner => exact stays _ inner (eraseLast_ended io _)
  | interrupts inner => exact stays _ inner (interrupt_ended io _)
  | types inner => exact stays _ inner (typed_ended io byte _)
  | leaves open_ plain leaves =>
    rw [endOfInput_ended]
    apply or_congr_right
    constructor
    · intro given
      exact ⟨given.2.2,Or.inl ⟨plain,leaves,given.1,given.2.1⟩⟩
    · intro given
      obtain ⟨closes,⟨_,_,blank,accepted⟩ | ⟨commits,_⟩⟩ := given
      · exact ⟨blank,accepted,closes⟩
      · exact absurd ⟨commits.1,commits.2.1⟩ open_
  | ends terminates =>
    rw [endLine_ended]
    apply or_congr_right
    constructor
    · intro given
      obtain ⟨accepted,named,closes,logout,leaves⟩ := given
      exact ⟨closes,Or.inr ⟨⟨terminates.1,terminates.2,accepted,named⟩,logout,leaves⟩⟩
    · intro given
      obtain ⟨closes,⟨_,leaves,_⟩ | ⟨commits,logout,leaves⟩⟩ := given
      · rw [leaves] at terminates
        exact absurd (terminates.2.imp_right And.left) (by decide)
      · exact ⟨commits.2.2.1,commits.2.2.2,closes,logout,leaves⟩

end Flag

theorem dataLoop_ended (platform : Platform) (bytes : List (UInt8 × ByteIo)) (world : World) :
    (dataLoop platform bytes world).2.session.isEnded = true ↔ world.session.isEnded = true ∨
      ∃ seen ∈ handledBytes platform bytes world, EndsSession seen.session seen.byte seen.io := by
  induction bytes generalizing world with
  | nil => simp [dataLoop,handledBytes]
  | cons received rest ih =>
    obtain ⟨byte,io⟩ := received
    have one := dataByte_ended platform io byte world
    simp only [dataLoop,handledBytes,List.exists_mem_cons_iff]
    cases step : dataByte platform io byte world with
    | mk flow after =>
      rw [step] at one
      cases flow with
      | next =>
        simp only [andThen]
        rw [ih after,one,or_assoc]
      | returned => simpa [andThen] using one
      | failed => simpa [andThen] using one

theorem data_ended (platform : Platform) (bytes : List (UInt8 × ByteIo)) (world : World) :
    (data platform bytes world).2.session.isEnded = true ↔ world.session.isEnded = true ∨
      ∃ seen ∈ handledBytes platform bytes world, EndsSession seen.session seen.byte seen.io := by
  rw [← dataLoop_ended]
  unfold data
  cases dataLoop platform bytes world with
  | mk flow after => cases flow <;> exact Iff.rfl

def Closes (callback : Callback) : Prop := ∃ io, callback = .channelClose io

theorem perform_ended (platform : Platform) (callback : Callback) (world : World) :
    (perform platform world callback).session.isEnded = true ↔ world.session.isEnded = true ∨ Closes callback ∨
      ∃ seen ∈ handledIn platform world callback, EndsSession seen.session seen.byte seen.io := by
  have quiet : ∀ after : World, after.session.isEnded = world.session.isEnded → ¬ Closes callback →
      handledIn platform world callback = [] →
      (after.session.isEnded = true ↔ world.session.isEnded = true ∨ Closes callback ∨
        ∃ seen ∈ handledIn platform world callback, EndsSession seen.session seen.byte seen.io) := by
    intro after same open_ none
    simp [same,open_,none]
  cases callback with
  | authPassword now user password => exact quiet _ rfl (by simp [Closes]) rfl
  | authPublickey now user algorithm fingerprint => exact quiet _ rfl (by simp [Closes]) rfl
  | shellRequest now writes =>
    refine quiet _ ?_ (by simp [Closes]) rfl
    simp only [perform,shellRequest]
    rw [andThen_ended _ _ (sendPrompt_ended _),sendOutput_ended]
    rfl
  | data bytes =>
    simp only [perform,data_ended]
    simp [Closes,handledIn]
  | channelClose io => simp [perform,Closes,(teardown_finishes platform io world).ended]
  | fetchLands io =>
    refine quiet _ ?_ (by simp [Closes]) rfl
    simp only [perform,SessionInput.fetchLands]
    split <;> rfl

theorem run_ended (platform : Platform) (callbacks : List Callback) (world : World) :
    (run platform callbacks world).session.isEnded = true ↔ world.session.isEnded = true ∨
      (∃ callback ∈ callbacks, Closes callback) ∨
      ∃ seen ∈ handled platform callbacks world, EndsSession seen.session seen.byte seen.io := by
  induction callbacks generalizing world with
  | nil => simp [run,handled]
  | cons callback rest ih =>
    change (run platform rest (perform platform world callback)).session.isEnded = true ↔ _
    rw [ih,perform_ended]
    simp only [handled,List.exists_mem_cons_iff,List.mem_append,or_and_right,exists_or]
    rw [or_assoc,or_assoc,or_assoc,or_left_comm (a := ∃ seen, seen ∈ handledIn platform world callback ∧ _)]

def Unmarked (effect : Effect) : Prop :=
  ∀ event, effect = .emitted event → ∀ id, isStartOf id event = false ∧ isEndOf id event = false

theorem starts_emitted (id : String) (log : List Effect) (event : TelemetryEvent) :
    starts id (log ++ [.emitted event]) = starts id log + if isStartOf id event then 1 else 0 := by
  unfold starts
  rw [emissions_append,List.countP_append]
  exact congrArg _ List.countP_singleton

theorem ends_emitted (id : String) (log : List Effect) (event : TelemetryEvent) :
    ends id (log ++ [.emitted event]) = ends id log + if isEndOf id event then 1 else 0 := by
  unfold ends
  rw [emissions_append,List.countP_append]
  exact congrArg _ List.countP_singleton

theorem unmarked_emissions (new : List Effect) (unmarked : ∀ effect ∈ new, Unmarked effect) (event : TelemetryEvent)
    (member : event ∈ emissions new) (id : String) : isStartOf id event = false ∧ isEndOf id event = false := by
  obtain ⟨effect,present,shown⟩ := List.mem_filterMap.mp member
  cases effect with
  | emitted told =>
    cases Option.some.inj shown
    exact unmarked _ present _ rfl id
  | _ => cases shown

theorem unmarked_starts (grows : Grows Unmarked before after) (id : String) : starts id after = starts id before := by
  obtain ⟨new,rfl,unmarked⟩ := grows
  have none : (emissions new).countP (isStartOf id) = 0 := by
    rw [List.countP_eq_zero]
    intro event member
    simp [(unmarked_emissions new unmarked event member id).1]
  simp only [starts,emissions_append,List.countP_append,none,Nat.add_zero]

theorem unmarked_ends (grows : Grows Unmarked before after) (id : String) : ends id after = ends id before := by
  obtain ⟨new,rfl,unmarked⟩ := grows
  have none : (emissions new).countP (isEndOf id) = 0 := by
    rw [List.countP_eq_zero]
    intro event member
    simp [(unmarked_emissions new unmarked event member id).2]
  simp only [ends,emissions_append,List.countP_append,none,Nat.add_zero]

theorem remark_unmarked (effect : Effect) (remark : IsRemark effect) : Unmarked effect := by
  intro event same id
  subst same
  cases event with
  | sessionStart start => cases remark
  | sessionEnd end_ => cases remark
  | _ => exact ⟨rfl,rfl⟩

theorem shell_unmarked (effect : Effect) (changes : IsShell effect) : Unmarked effect := by
  intro event same
  subst same
  cases changes

theorem download_unmarked (effect : Effect) (downloads : IsDownload effect) : Unmarked effect := by
  intro event same id
  subst same
  cases event with
  | payloadCaptured payload => exact ⟨rfl,rfl⟩
  | _ => cases downloads

theorem cleanup_unmarked (effect : Effect) (cleans : IsCleanup effect) : Unmarked effect := by
  intro event same id
  subst same
  cases event with
  | payloadCaptured payload => exact ⟨rfl,rfl⟩
  | _ => cases cleans

-- What the log has told of the session `name`, against the flag of the session.
structure Tallied (root : Path) (name : String) (count : Nat) (world : World) : Prop where
  named : world.session.info.sessionId = name
  rooted : Rooted root world
  starts : starts name world.host.log = count
  ends : ends name world.host.log = if world.session.isEnded then 1 else 0

theorem Tallied.works (tallied : Tallied root name count before) (works : Works root Unmarked before after)
    (info : after.session.info = before.session.info) : Tallied root name count after := by
  refine ⟨by rw [info,tallied.named],works.rooted tallied.rooted,?_,?_⟩
  · rw [unmarked_starts works.grows,tallied.starts]
  · rw [unmarked_ends works.grows,works.ended,tallied.ends]

theorem teardown_tallied (platform : Platform) (io : TeardownIo) (tallied : Tallied root name count world) :
    Tallied root name count (teardown platform io world) := by
  cases active : world.session.isEnded with
  | true =>
    rw [teardown_ended platform io world active]
    exact tallied
  | false =>
    obtain ⟨sandbox,session⟩ := teardown_session platform io world
    obtain ⟨later,same,cleans⟩ := teardown_log platform io world active
    have grows : Grows Unmarked (world.host.log ++ [.emitted (endEvent io world.session.info)])
        (teardown platform io world).host.log :=
      ⟨later,by rw [same,List.append_assoc,List.singleton_append],
        fun effect member => cleanup_unmarked effect (cleans effect member)⟩
    have once : isEndOf name (endEvent io world.session.info) = true := by simp [endEvent,isEndOf,tallied.named]
    refine ⟨by rw [session]; exact tallied.named,⟨by rw [session]; exact tallied.rooted.plain,
      by rw [session]; exact tallied.rooted.rooted⟩,?_,?_⟩
    · rw [unmarked_starts grows,starts_emitted,tallied.starts]
      rfl
    · rw [unmarked_ends grows,ends_emitted,once,tallied.ends,active,session]
      rfl

theorem move_tallied (move : Move platform before made after) (tallied : Tallied root name count before) :
    Tallied root name count after := by
  cases move with
  | edit cmdBuffer escapeSeq escapeLen lastByte => exact tallied.works (Works.update before _ rfl rfl) rfl
  | remark effect remark => exact tallied.works (Works.note before (remark_unmarked effect remark)) rfl
  | shell io cmd =>
    exact tallied.works ((runShell_works platform io cmd before tallied.rooted).weaken shell_unmarked) rfl
  | fetch io cmd url _ _ =>
    refine tallied.works ((startFetch_works platform io cmd url before).weaken download_unmarked) ?_
    unfold startFetch
    rw [awaitFetch_session]
    rfl
  | finish io => exact teardown_tallied platform io tallied
  | land io =>
    refine tallied.works (((fetchLands_works platform io before).weaken fetch_download).weaken download_unmarked) ?_
    unfold SessionInput.fetchLands
    split <;> rfl

theorem moves_tallied (moves : Moves platform before made after) (tallied : Tallied root name count before) :
    Tallied root name count after := by
  induction moves with
  | refl => exact tallied
  | tail _ move ih => exact move_tallied move ih

def Starts (callback : Callback) : Bool :=
  match callback with
  | .shellRequest _ _ => true
  | _ => false

theorem perform_tallied (platform : Platform) (callback : Callback) (tallied : Tallied root name count world) :
    Tallied root name (count + if Starts callback then 1 else 0) (perform platform world callback) := by
  by_cases opens : Starts callback = true
  · cases callback with
    | shellRequest now writes =>
      have shown : Moves platform _ [] (shellRequest platform now writes world).2 :=
        shellRequest_moves now writes world
      apply moves_tallied shown
      refine ⟨tallied.named,⟨tallied.rooted.plain,tallied.rooted.rooted⟩,?_,?_⟩
      · have own : isStartOf name (shellEvent platform now world.session.info) = true := by
          simp [shellEvent,isStartOf,tallied.named]
        exact (starts_emitted name world.host.log _).trans (by rw [own,tallied.starts]; rfl)
      · exact (ends_emitted name world.host.log _).trans tallied.ends
    | _ => cases opens
  · have same : count + (if Starts callback then 1 else 0) = count := by simp [opens]
    rw [same]
    refine moves_tallied (perform_moves callback ?_ world) tallied
    intro now writes shell
    subst shell
    exact opens rfl

theorem run_tallied (platform : Platform) (callbacks : List Callback) (tallied : Tallied root name count world) :
    Tallied root name (count + callbacks.countP Starts) (run platform callbacks world) := by
  induction callbacks generalizing world count with
  | nil => exact tallied
  | cons callback rest ih =>
    have next := ih (perform_tallied platform callback tallied)
    rw [List.countP_cons,Nat.add_comm (rest.countP Starts),← Nat.add_assoc]
    exact next

theorem dropSession_grows (platform : Platform) (io : TeardownIo) (runtime : Bool) (session : ActiveSession) (host : Host) :
    Grows IsCleanup host.log (dropSession platform io runtime session host).log := by
  unfold dropSession
  split
  · exact Grows.refl _ _
  · split
    · exact Grows.refl _ _
    · split
      · exact finishSandbox_grows platform _ _ io _ host
      · split
        · exact Grows.refl _ _
        · exact Grows.refl _ _

theorem admitted_tallied (info : SessionMeta) (config : SessionConfig) (forensics : ForensicsEngine)
    (sandbox : Option SandboxHandle) (rootfs : Path) (layer : Layer) :
    ∃ root, Tallied root info.sessionId 0 (admitted info config forensics sandbox rootfs layer) := by
  obtain ⟨root,consistent⟩ := admitted_consistent info config forensics sandbox rootfs layer
  exact ⟨root,rfl,consistent.rooted,rfl,rfl⟩

theorem bracketed_counts (id : String) (log : List Effect) : Bracketed id log ↔ (0 < starts id log → ends id log = 1) := by
  unfold Bracketed starts
  rw [List.countP_pos_iff]
  exact Iff.rfl

-- The drop adds no mark, so the flag it finds decides.
theorem dropped_bracketed (platform : Platform) (io : TeardownIo) (runtime : Bool) (tallied : Tallied root name count world) :
    Bracketed name (dropSession platform io runtime world.session world.host).log ↔
      count = 0 ∨ world.session.isEnded = true := by
  have grows : Grows Unmarked world.host.log (dropSession platform io runtime world.session world.host).log :=
    (dropSession_grows platform io runtime world.session world.host).weaken cleanup_unmarked
  rw [bracketed_counts,unmarked_starts grows,unmarked_ends grows,tallied.starts,tallied.ends]
  cases world.session.isEnded with
  | true => simp
  | false => simp

theorem session_end_exact (platform : Platform) (info : SessionMeta) (config : SessionConfig) (forensics : ForensicsEngine)
    (sandbox : Option SandboxHandle) (rootfs : Path) (layer : Layer) (callbacks : List Callback) (io : TeardownIo)
    (runtime : Bool) :
    Bracketed info.sessionId (dropSession platform io runtime
        (run platform callbacks (admitted info config forensics sandbox rootfs layer)).session
        (run platform callbacks (admitted info config forensics sandbox rootfs layer)).host).log ↔
      (∀ now writes, Callback.shellRequest now writes ∉ callbacks) ∨ (∃ close, Callback.channelClose close ∈ callbacks) ∨
      ∃ seen ∈ handled platform callbacks (admitted info config forensics sandbox rootfs layer),
        EndsSession seen.session seen.byte seen.io := by
  obtain ⟨root,tallied⟩ := admitted_tallied info config forensics sandbox rootfs layer
  have counted := run_tallied platform callbacks tallied
  have unopened : 0 + callbacks.countP Starts = 0 ↔ ∀ now writes, Callback.shellRequest now writes ∉ callbacks := by
    rw [Nat.zero_add,List.countP_eq_zero]
    constructor
    · intro none now writes member
      exact none _ member rfl
    · intro none callback member opens
      cases callback with
      | shellRequest now writes => exact none now writes member
      | _ => cases opens
  have closed : (∃ callback ∈ callbacks, Closes callback) ↔ ∃ close, Callback.channelClose close ∈ callbacks := by
    constructor
    · intro given
      obtain ⟨_,member,close,rfl⟩ := given
      exact ⟨close,member⟩
    · intro given
      obtain ⟨close,member⟩ := given
      exact ⟨_,member,close,rfl⟩
  rw [dropped_bracketed platform io runtime counted,unopened,run_ended,closed]
  apply or_congr_right
  constructor
  · intro either
    rcases either with ended | later
    · cases ended
    · exact later
  · exact Or.inr

-- A shell is opened and the connection is lost.
theorem lost_connection_leaves_no_end : ¬ Bracketed "7" (dropSession plainPlatform plainTeardown true
    (run plainPlatform [.shellRequest 0 (fun _ => true)] plainSession).session
    (run plainPlatform [.shellRequest 0 (fun _ => true)] plainSession).host).log := by
  obtain ⟨root,tallied⟩ : ∃ root, Tallied root "7" 0 plainSession :=
    admitted_tallied ⟨"7",.v4 198 51 100 45,40022⟩ _ _ _ _ _
  rw [dropped_bracketed plainPlatform plainTeardown true (run_tallied plainPlatform [.shellRequest 0 (fun _ => true)] tallied),
    run_ended]
  simp [Starts,handled,handledIn,Closes,plainSession,admitted,newClient]

end AegisHoneypot.SessionEnding
