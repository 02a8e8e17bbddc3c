import AegisHoneypot.SessionInput

-- Everything a session does is a sequence of a few moves. What each move keeps,
-- every callback keeps, whatever the client sends and whatever fails on the way.
namespace AegisHoneypot.SessionMoves
open Utf8Text GatewayHost PayloadFetch SessionHandler SessionInput

def IsRemark : Effect → Prop
  | .sent _ => True
  | .recorded _ _ => True
  | .recorderFlushed => True
  | .channelClosed => True
  | .emitted (.commandRun _) => True
  | .emitted (.credentialHarvest _) => True
  | _ => False

def edited (cmdBuffer : Text) (escapeSeq : Bool) (escapeLen : Nat) (lastByte : UInt8) (session : ActiveSession) : ActiveSession :=
  {session with cmdBuffer := cmdBuffer,escapeSeq := escapeSeq,escapeLen := escapeLen,lastByte := lastByte}

-- A fetch that is made: its URL, and what the libraries answer it.
structure Fetch where
  io : FetchIo
  url : Text

-- The fetch that a command line makes before it is answered. One that is not
-- waited for is made later, when its thread gets to it.
def downloadFetches (io : ByteIo) (cmd : Text) (world : World) : List Fetch :=
  match reUrl.findIter cmd with
  | [] => []
  | url :: _ =>
    if world.session.config.fetchPayloads = false ∨ world.session.config.maxFetchesPerSession ≤ world.session.fetchCount ∨
      io.inTime = false then []
    else [⟨io.fetch,url⟩]

def lineFetches (io : ByteIo) (world : World) : List Fetch :=
  let cmd := world.session.cmdBuffer.trim
  if io.writes 0 = false ∨ cmd = [] ∨ cmd.trim = "exit".toList ∨ cmd.trim = "logout".toList ∨ reDownload.isMatch cmd = false then []
  else downloadFetches io cmd world

instance (session : ActiveSession) (byte : UInt8) : Decidable (TerminatesLine session byte) :=
  inferInstanceAs (Decidable (_ ∧ _))

def byteFetches (io : ByteIo) (byte : UInt8) (world : World) : List Fetch :=
  if TerminatesLine world.session byte then lineFetches io world else []

def dataFetches (platform : Platform) : List (UInt8 × ByteIo) → World → List Fetch
  | [],_ => []
  | (byte,io) :: rest,world => byteFetches io byte world ++
    match dataByte platform io byte world with
    | (.next,next) => dataFetches platform rest next
    | _ => []

def callbackFetches (platform : Platform) (world : World) : Callback → List Fetch
  | .data bytes => dataFetches platform bytes world
  | .fetchLands io => world.pending.head?.toList.map (fun job => ⟨io,job.url⟩)
  | _ => []

-- The fetches of a whole run, each from the state that its callback, and its byte
-- there, finds.
def fetches (platform : Platform) : List Callback → World → List Fetch
  | [],_ => []
  | callback :: rest,world => callbackFetches platform world callback ++ fetches platform rest (perform platform world callback)

def shellEvent (platform : Platform) (now : DateTime) (info : SessionMeta) : TelemetryEvent :=
  .sessionStart ⟨now,info.sessionId,info.clientIp,info.clientPort,platform.geoip info.clientIp⟩

-- What holds of all the answers that a run can be given holds of those to its
-- fetches.
def Allows (allowed : FetchIo → Prop) : Callback → Prop
  | .data bytes => ∀ received ∈ bytes, allowed received.2.fetch
  | .fetchLands io => allowed io
  | _ => True

theorem lineFetches_io (io : ByteIo) (world : World) (fetch : Fetch) (member : fetch ∈ lineFetches io world) :
    fetch.io = io.fetch := by
  unfold lineFetches downloadFetches at member
  dsimp only at member
  split at member
  · cases member
  · split at member
    · cases member
    · split at member
      · cases member
      · rw [List.mem_singleton.mp member]

theorem dataFetches_allowed (allowed : FetchIo → Prop) (platform : Platform) (bytes : List (UInt8 × ByteIo)) (world : World)
    (sound : ∀ received ∈ bytes, allowed received.2.fetch) (fetch : Fetch) (member : fetch ∈ dataFetches platform bytes world) :
    allowed fetch.io := by
  induction bytes generalizing world with
  | nil => cases member
  | cons received rest ih =>
    obtain ⟨byte,io⟩ := received
    rw [List.forall_mem_cons] at sound
    rw [dataFetches] at member
    rcases List.mem_append.mp member with now | later
    · unfold byteFetches at now
      split at now
      · rw [lineFetches_io io world fetch now]
        exact sound.1
      · cases now
    · split at later
      · exact ih _ sound.2 later
      · cases later

theorem fetches_allowed (allowed : FetchIo → Prop) (platform : Platform) (callbacks : List Callback) (world : World)
    (sound : ∀ callback ∈ callbacks, Allows allowed callback) (fetch : Fetch) (member : fetch ∈ fetches platform callbacks world) :
    allowed fetch.io := by
  induction callbacks generalizing world with
  | nil => cases member
  | cons callback rest ih =>
    rw [List.forall_mem_cons] at sound
    rw [fetches] at member
    rcases List.mem_append.mp member with now | later
    · cases callback with
      | data bytes => exact dataFetches_allowed allowed platform bytes world sound.1 fetch now
      | fetchLands io =>
        obtain ⟨job,_,rfl⟩ := List.mem_map.mp now
        exact sound.1
      | _ => cases now
    · exact ih _ sound.2 later

-- What one move makes of a session, and the fetches that it makes.
inductive Move (platform : Platform) : World → List Fetch → World → Prop where
  | edit (world : World) (cmdBuffer : Text) (escapeSeq : Bool) (escapeLen : Nat) (lastByte : UInt8) :
      Move platform world [] (world.update (edited cmdBuffer escapeSeq escapeLen lastByte))
  | remark (world : World) (effect : Effect) : IsRemark effect → Move platform world [] (world.note effect)
  | shell (world : World) (io : ByteIo) (cmd : Text) : Move platform world [] (runShell platform io cmd world).2
  | fetch (world : World) (io : ByteIo) (cmd url : Text) : world.session.config.fetchPayloads = true →
      world.session.fetchCount < world.session.config.maxFetchesPerSession →
      Move platform world (if io.inTime then [⟨io.fetch,url⟩] else []) (startFetch platform io cmd url world).2
  | finish (world : World) (io : TeardownIo) : Move platform world [] (teardown platform io world)
  | land (world : World) (io : FetchIo) :
      Move platform world (world.pending.head?.toList.map (fun job => ⟨io,job.url⟩)) (fetchLands platform io world)

inductive Moves (platform : Platform) : World → List Fetch → World → Prop where
  | refl (world : World) : Moves platform world [] world
  | tail : Moves platform before earlier middle → Move platform middle last after → Moves platform before (earlier ++ last) after

section Moves
variable {platform : Platform}

theorem Moves.one (move : Move platform before made after) : Moves platform before made after := .tail (.refl before) move

theorem Moves.trans (first : Moves platform before earlier middle) (second : Moves platform middle later after) :
    Moves platform before (earlier ++ later) after := by
  induction second with
  | refl => rwa [List.append_nil]
  | tail _ move ih => rw [← List.append_assoc]; exact .tail ih move

-- Moves that fetch nothing, before or after others.
theorem Moves.then_idle (first : Moves platform before made middle) (second : Moves platform middle [] after) :
    Moves platform before made after := List.append_nil made ▸ first.trans second

theorem Moves.keeps {invariant : List Fetch → World → Prop} (path : Moves platform before made after)
    (initial : invariant earlier before)
    (preserved : ∀ known world last next, Move platform world last next → invariant known world → invariant (known ++ last) next) :
    invariant (earlier ++ made) after := by
  induction path with
  | refl => rwa [List.append_nil]
  | tail _ move ih => rw [← List.append_assoc]; exact preserved _ _ _ _ move ih

-- What follows a write, where the write was accepted.
theorem andThen_moves (result : Flow × World) (rest : World → Flow × World) (first : Moves platform world earlier result.2)
    (second : ∀ middle, result = (.next,middle) → Moves platform middle later (rest middle).2)
    (stopped : result.1 ≠ .next → later = []) : Moves platform world (earlier ++ later) (andThen result rest).2 := by
  obtain ⟨flow,middle⟩ := result
  cases flow with
  | next => exact first.trans (second middle rfl)
  | returned =>
    rw [stopped nofun,List.append_nil]
    exact first
  | failed =>
    rw [stopped nofun,List.append_nil]
    exact first

theorem andThen_idle (result : Flow × World) (rest : World → Flow × World) (first : Moves platform world made result.2)
    (second : ∀ middle, Moves platform middle [] (rest middle).2) : Moves platform world made (andThen result rest).2 :=
  List.append_nil made ▸ andThen_moves result rest first (fun middle _ => second middle) (fun _ => rfl)

theorem edit_moves (world : World) (cmdBuffer : Text) :
    Moves platform world [] (world.update (fun session => {session with cmdBuffer := cmdBuffer})) :=
  .one (.edit world cmdBuffer world.session.escapeSeq world.session.escapeLen world.session.lastByte)

theorem sendOutput_moves (accepted : Bool) (text : Text) (world : World) :
    Moves platform world [] (sendOutput accepted text world).2 := by
  unfold sendOutput
  split
  · exact (Moves.one (.remark world (.sent (encode text)) trivial)).trans (.one (.remark _ (.recorded .output text) trivial))
  · exact .refl world

theorem sendPrompt_moves (accepted : Bool) (world : World) : Moves platform world [] (sendPrompt accepted world).2 :=
  sendOutput_moves accepted _ world

variable (io : ByteIo)

theorem download_moves (cmd : Text) (world : World) :
    Moves platform world (downloadFetches io cmd world) (download platform io cmd world).2 := by
  unfold download downloadFetches
  cases reUrl.findIter cmd with
  | nil => exact .refl world
  | cons url _ =>
    dsimp only
    by_cases refused : world.session.config.fetchPayloads = false ∨ world.session.config.maxFetchesPerSession ≤ world.session.fetchCount
    · rw [if_pos refused,if_pos (or_assoc.mp (Or.inl refused))]
      exact .refl world
    · obtain ⟨open_,left⟩ := not_or.mp refused
      have move := Moves.one (Move.fetch world io cmd url (by simpa using open_) (Nat.lt_of_not_le left) : Move platform world _ _)
      rw [if_neg refused]
      cases waited : io.inTime with
      | true =>
        rw [if_neg (by simp [open_,left])]
        rwa [waited] at move
      | false =>
        rw [if_pos (Or.inr (Or.inr rfl))]
        rwa [waited] at move

theorem respond_moves (cmd : Text) (world : World) : Moves platform world
    (if reDownload.isMatch cmd = false then [] else downloadFetches io cmd world) (respond platform io cmd world).2 := by
  unfold respond
  cases reDownload.isMatch cmd with
  | true => exact download_moves io cmd world
  | false => exact .one (.shell world io cmd)

theorem sayGoodbye_moves (accepted : Bool) (world : World) :
    Moves platform world [] (sayGoodbye platform io accepted world).2 := by
  apply andThen_idle
  · exact sendOutput_moves accepted _ world
  · intro middle
    split
    · exact (Moves.one (.remark middle .channelClosed trivial)).trans (.one (.finish _ io.teardown))
    · exact .refl middle

theorem runCommand_moves (cmd : Text) (world : World) : Moves platform world
    (if cmd.trim = "exit".toList ∨ cmd.trim = "logout".toList ∨ reDownload.isMatch cmd = false then [] else downloadFetches io cmd world)
    (runCommand platform io cmd world).2 := by
  have told : Moves platform world [] ((world.note (.recorded .input (cmd ++ ['\n']))).note
      (.emitted (.commandRun (commandEvent io world.session.info cmd)))) :=
    (Moves.one (.remark world (.recorded .input _) trivial)).trans (.one (.remark _ (.emitted (.commandRun _)) trivial))
  unfold runCommand
  dsimp only
  by_cases leaves : cmd.trim = "exit".toList ∨ cmd.trim = "logout".toList
  · rw [if_pos leaves,if_pos (or_assoc.mp (Or.inl leaves))]
    exact andThen_idle _ _ (told.then_idle (sayGoodbye_moves io _ _)) (fun middle => .refl middle)
  · have answered := told.trans (respond_moves io cmd ((world.note (.recorded .input (cmd ++ ['\n']))).note
      (.emitted (.commandRun (commandEvent io world.session.info cmd)))))
    rw [if_neg leaves]
    simp only [← or_assoc,leaves,false_or]
    exact andThen_idle _ _ (answered.then_idle (sendOutput_moves _ _ _)) (fun middle => sendPrompt_moves _ middle)

theorem sendOutput_next (sent : sendOutput accepted text world = (.next,middle)) :
    accepted = true ∧ middle.session = world.session := by
  unfold sendOutput at sent
  split at sent
  · rename_i given
    cases sent
    exact ⟨given,rfl⟩
  · cases sent

theorem sendOutput_stops (stopped : (sendOutput accepted text world).1 ≠ .next) : accepted = false := by
  unfold sendOutput at stopped
  split at stopped
  · exact absurd rfl stopped
  · rename_i refused
    simpa using refused

theorem downloadFetches_session (io : ByteIo) (cmd : Text) (world other : World)
    (same : other.session.config = world.session.config) (count : other.session.fetchCount = world.session.fetchCount) :
    downloadFetches io cmd other = downloadFetches io cmd world := by
  unfold downloadFetches
  rw [same,count]

theorem endLine_moves (world : World) : Moves platform world (lineFetches io world) (endLine platform io world).2 := by
  have written : Moves platform world [] (sendOutput (io.writes 0) Text.crlf world).2 := sendOutput_moves _ _ world
  refine List.nil_append (lineFetches io world) ▸ andThen_moves _ _ written ?_ ?_
  · intro middle sent
    obtain ⟨accepted,same⟩ := sendOutput_next sent
    dsimp only
    rw [same]
    unfold lineFetches
    dsimp only
    rw [accepted]
    simp only [Bool.true_eq_false,false_or]
    by_cases blank : world.session.cmdBuffer.trim = []
    · rw [if_pos blank,if_pos (Or.inl blank)]
      exact (edit_moves middle []).then_idle (sendPrompt_moves _ _)
    · rw [if_neg blank]
      simp only [blank,false_or]
      have cleared : downloadFetches io world.session.cmdBuffer.trim (middle.update (fun session => {session with cmdBuffer := []})) =
          downloadFetches io world.session.cmdBuffer.trim world :=
        downloadFetches_session io _ world _ (by rw [← same]; rfl) (by rw [← same]; rfl)
      rw [← cleared]
      exact (edit_moves middle []).trans (runCommand_moves io world.session.cmdBuffer.trim _)
  · intro stopped
    unfold lineFetches
    dsimp only
    rw [if_pos (Or.inl (sendOutput_stops stopped))]

theorem eraseLast_moves (world : World) : Moves platform world [] (eraseLast io world).2 := by
  unfold eraseLast
  split
  · exact .refl world
  · exact (edit_moves world world.session.cmdBuffer.dropLast).trans (sendOutput_moves _ _ _)

theorem interrupt_moves (world : World) : Moves platform world [] (interrupt io world).2 := by
  apply andThen_idle
  · exact (edit_moves world []).trans (sendOutput_moves _ _ _)
  · exact fun middle => sendPrompt_moves _ middle

theorem endOfInput_moves (world : World) : Moves platform world [] (endOfInput platform io world).2 := by
  unfold endOfInput
  split
  · exact sayGoodbye_moves io _ world
  · exact .refl world

theorem typed_moves (byte : UInt8) (world : World) : Moves platform world [] (typed io byte world).2 := by
  unfold typed
  split
  · exact .refl world
  · exact (edit_moves world (world.session.cmdBuffer ++ [Char.ofNat byte.toNat])).trans (sendOutput_moves _ _ _)

theorem lineFetches_seen (byte : UInt8) (world : World) :
    lineFetches io (world.update (fun session => {session with lastByte := byte})) = lineFetches io world := by
  have seen := fun cmd => downloadFetches_session io cmd world (world.update (fun session => {session with lastByte := byte})) rfl rfl
  unfold lineFetches
  simp only [seen]
  rfl

theorem dataByte_moves (byte : UInt8) (world : World) :
    Moves platform world (byteFetches io byte world) (dataByte platform io byte world).2 := by
  have seen : Moves platform world [] (world.update (fun session => {session with lastByte := byte})) :=
    .one (.edit world world.session.cmdBuffer world.session.escapeSeq world.session.escapeLen byte)
  have step := dataByte_step platform io byte world
  unfold byteFetches
  generalize dataByte platform io byte world = result at step ⊢
  cases step with
  | escape inner =>
    rw [if_neg inner.open_]
    exact .one (.edit world world.session.cmdBuffer true 0 byte)
  | sequence inner =>
    rw [if_neg inner.open_]
    exact .one (.edit world world.session.cmdBuffer _ _ byte)
  | ignored inner =>
    rw [if_neg inner.open_]
    exact seen
  | erases inner =>
    rw [if_neg inner.open_]
    exact seen.trans (eraseLast_moves io _)
  | interrupts inner =>
    rw [if_neg inner.open_]
    exact seen.trans (interrupt_moves io _)
  | types inner =>
    rw [if_neg inner.open_]
    exact seen.trans (typed_moves io byte _)
  | leaves open_ =>
    rw [if_neg open_]
    exact seen.trans (endOfInput_moves io _)
  | ends terminates =>
    rw [if_pos terminates,← lineFetches_seen io byte]
    exact seen.trans (endLine_moves io _)

theorem dataLoop_moves (bytes : List (UInt8 × ByteIo)) (world : World) :
    Moves platform world (dataFetches platform bytes world) (dataLoop platform bytes world).2 := by
  induction bytes generalizing world with
  | nil => exact .refl world
  | cons received rest ih =>
    obtain ⟨byte,io⟩ := received
    rw [dataFetches,dataLoop]
    refine andThen_moves _ _ (dataByte_moves io byte world) ?_ ?_
    · intro middle went
      rw [went]
      exact ih middle
    · intro stopped
      generalize dataByte platform io byte world = result at stopped
      obtain ⟨flow,after⟩ := result
      cases flow with
      | next => exact absurd rfl stopped
      | returned => rfl
      | failed => rfl

theorem data_moves (bytes : List (UInt8 × ByteIo)) (world : World) :
    Moves platform world (dataFetches platform bytes world) (data platform bytes world).2 := by
  have looped : Moves platform world (dataFetches platform bytes world) (dataLoop platform bytes world).2 :=
    dataLoop_moves bytes world
  unfold data
  cases result : dataLoop platform bytes world with
  | mk flow after =>
    rw [result] at looped
    cases flow with
    | next => exact looped.then_idle (.one (.remark after .recorderFlushed trivial))
    | returned => exact looped
    | failed => exact looped

theorem shellRequest_moves (now : DateTime) (writes : Nat → Bool) (world : World) :
    Moves platform (world.note (.emitted (shellEvent platform now world.session.info))) []
      (shellRequest platform now writes world).2 :=
  andThen_idle _ _ (sendOutput_moves _ _ _) (fun middle => sendPrompt_moves _ middle)

-- All callbacks but the one that announces a session.
theorem perform_moves (callback : Callback) (other : ∀ now writes, callback ≠ .shellRequest now writes) (world : World) :
    Moves platform world (callbackFetches platform world callback) (perform platform world callback) := by
  cases callback with
  | authPassword now user password => exact .one (.remark world (.emitted (.credentialHarvest _)) trivial)
  | authPublickey now user algorithm fingerprint => exact .one (.remark world (.emitted (.credentialHarvest _)) trivial)
  | shellRequest now writes => exact absurd rfl (other now writes)
  | data bytes => exact data_moves bytes world
  | channelClose io => exact .one (.finish world io)
  | fetchLands io => exact .one (.land world io)

theorem run_keeps {invariant : List Fetch → World → Prop}
    (preserved : ∀ known world last next, Move platform world last next → invariant known world → invariant (known ++ last) next)
    (announced : ∀ known world now, invariant known world →
      invariant known (world.note (.emitted (shellEvent platform now world.session.info))))
    (callbacks : List Callback) (known : List Fetch) (world : World) (initial : invariant known world) :
    invariant (known ++ fetches platform callbacks world) (run platform callbacks world) := by
  induction callbacks generalizing known world with
  | nil => rwa [fetches,List.append_nil]
  | cons callback rest ih =>
    rw [fetches,← List.append_assoc]
    refine ih _ _ ?_
    by_cases opens : ∃ now writes, callback = .shellRequest now writes
    · obtain ⟨now,writes,rfl⟩ := opens
      exact (shellRequest_moves now writes world).keeps (announced known world now initial) preserved
    · refine (perform_moves callback ?_ world).keeps initial preserved
      intro now writes same
      exact opens ⟨now,writes,same⟩

end Moves
end AegisHoneypot.SessionMoves
