import AegisHoneypot.LineEditing
import AegisHoneypot.PacketBoundaries
import AegisHoneypot.SessionEnding

-- The line under edit and the escape sequence under way stay bounded, whatever
-- is sent and however it is cut into packets.
namespace AegisHoneypot.InputAutomaton
open FileTree Utf8Text GatewayHost OverlaySandbox Vfs Forensics PayloadFetch SessionHandler SessionInput SessionSilence
open TerminalReplay LineEditing PacketBoundaries SessionEnding

structure Typable (line : Text) : Prop where
  short : line.length ≤ maxCommandLen
  printable : ∀ c ∈ line, 0x20 ≤ c.toNat ∧ c.toNat ≤ 0x7e

structure Runnable (cmd : Text) : Prop where
  named : cmd ≠ []
  trimmed : cmd.trim = cmd
  typable : Typable cmd

theorem Typable.empty : Typable [] := ⟨Nat.zero_le _,by simp⟩

theorem Typable.part (typable : Typable line) (part : cmd.Sublist line) : Typable cmd :=
  ⟨part.length_le.trans typable.short,fun c member => typable.printable c (part.subset member)⟩

theorem Typable.typed (typable : Typable line) (room : ¬ maxCommandLen ≤ line.length) (visible : Visible c) :
    Typable (line ++ [c]) := by
  refine ⟨?_,?_⟩
  · rw [List.length_append,List.length_singleton]
    omega
  · intro other member
    rcases List.mem_append.mp member with old | new
    · exact typable.printable other old
    · rw [List.mem_singleton.mp new]
      unfold Visible at visible
      omega

theorem Typable.runnable (typable : Typable line) (named : line.trim ≠ []) : Runnable line.trim := by
  obtain ⟨front,back,parts,_,_⟩ := Text.trim_parts line
  refine ⟨named,Text.trim_trim line,typable.part ?_⟩
  conv_rhs => rw [parts]
  exact (List.sublist_append_right front _).trans (List.sublist_append_left _ back)

-- The line and the commands are in order; the flag and the counter of the
-- escape sequence stand at this place.
structure Holds (place : Bool × Nat) (world : World) : Prop where
  edited : Typable world.session.cmdBuffer
  announced : ∀ event ∈ commandRuns world.host.log, Runnable event.command.toList
  flag : world.session.escapeSeq = place.1
  counter : world.session.escapeLen = place.2

-- The editor is left as it is, and no command is announced.
theorem Holds.spared (holds : Holds place before) (tells : Tells texts [] before after)
    (edited : after.session.cmdBuffer = before.session.cmdBuffer) (flag : after.session.escapeSeq = before.session.escapeSeq)
    (counter : after.session.escapeLen = before.session.escapeLen) : Holds place after := by
  refine ⟨?_,?_,flag.trans holds.flag,counter.trans holds.counter⟩
  · rw [edited]
    exact holds.edited
  · rw [tells.runs,List.append_nil]
    exact holds.announced

theorem Holds.note (holds : Holds place world) (aside : commandRuns [effect] = []) :
    Holds place (world.note effect) := by
  refine ⟨holds.edited,?_,holds.flag,holds.counter⟩
  change ∀ event ∈ commandRuns (world.host.log ++ [effect]),_
  rw [commandRuns_append,aside,List.append_nil]
  exact holds.announced

theorem Holds.announce (holds : Holds place world) (runnable : Runnable event.command.toList) :
    Holds place (world.note (.emitted (.commandRun event))) := by
  refine ⟨holds.edited,?_,holds.flag,holds.counter⟩
  change ∀ other ∈ commandRuns (world.host.log ++ [.emitted (.commandRun event)]),_
  intro other member
  rw [commandRuns_append] at member
  rcases List.mem_append.mp member with old | new
  · exact holds.announced other old
  · rw [List.mem_singleton.mp new]
    exact runnable

theorem Holds.relined (holds : Holds place world) (typable : Typable line) :
    Holds place (world.update (fun session => {session with cmdBuffer := line})) :=
  ⟨typable,holds.announced,holds.flag,holds.counter⟩

theorem Holds.seen (holds : Holds place world) (byte : UInt8) :
    Holds place (world.update (fun session => {session with lastByte := byte})) :=
  ⟨holds.edited,holds.announced,holds.flag,holds.counter⟩

theorem andThen_holds (result : Flow × World) (rest : World → Flow × World) (first : Holds place result.2)
    (second : ∀ middle, Holds place middle → Holds place (rest middle).2) :
    Holds place (andThen result rest).2 := by
  obtain ⟨flow,middle⟩ := result
  cases flow with
  | next => exact second middle first
  | returned => exact first
  | failed => exact first

theorem sendOutput_holds (accepted : Bool) (text : Text) (holds : Holds place world) :
    Holds place (sendOutput accepted text world).2 := by
  unfold sendOutput
  split
  · exact (holds.note rfl).note rfl
  · exact holds

section Bytes
variable (platform : Platform) (io : ByteIo)

theorem teardown_holds (io : TeardownIo) (holds : Holds place world) : Holds place (teardown platform io world) := by
  obtain ⟨sandbox,session⟩ := teardown_session platform io world
  refine holds.spared (teardown_tells platform io world) ?_ ?_ ?_
  all_goals rw [session]

theorem respond_holds (cmd : Text) (holds : Holds place world) :
    Holds place (respond platform io cmd world).2 := by
  refine holds.spared (respond_tells platform io cmd world) (respond_line platform io cmd world) ?_ ?_
  all_goals
    unfold respond
    split
    · obtain ⟨count,session⟩ := download_session platform io cmd world
      rw [session]
    · rfl

theorem fetchLands_holds (landed : FetchIo) (holds : Holds place world) :
    Holds place (SessionInput.fetchLands platform landed world) := by
  have works : Works [] IsFetch world (SessionInput.fetchLands platform landed world) :=
    fetchLands_works platform landed world
  have tells : Tells [] [] world (SessionInput.fetchLands platform landed world) :=
    Tells.asides (works.grows.weaken (fun effect fetched => download_aside effect (fetch_download effect fetched)))
  refine holds.spared tells ?_ ?_ ?_
  all_goals rw [fetchLands_session platform landed world]

theorem sayGoodbye_holds (accepted : Bool) (holds : Holds place world) :
    Holds place (sayGoodbye platform io accepted world).2 := by
  refine andThen_holds _ _ (sendOutput_holds _ _ holds) ?_
  intro middle held
  split
  · exact teardown_holds platform io.teardown (held.note rfl)
  · exact held

theorem runCommand_holds (runnable : Runnable cmd) (holds : Holds place world) :
    Holds place (runCommand platform io cmd world).2 := by
  have told : Holds place ((world.note (.recorded .input (cmd ++ ['\n']))).note
      (.emitted (.commandRun (commandEvent io world.session.info cmd)))) := by
    refine (holds.note rfl).announce ?_
    change Runnable (String.ofList cmd).toList
    rw [String.toList_ofList]
    exact runnable
  unfold runCommand
  dsimp only
  split
  · exact andThen_holds _ _ (sayGoodbye_holds platform io _ told) (fun _ held => held)
  · refine andThen_holds _ _ (sendOutput_holds _ _ (respond_holds platform io cmd told)) ?_
    intro middle held
    exact sendOutput_holds _ _ held

theorem endLine_holds (holds : Holds place world) : Holds place (endLine platform io world).2 := by
  refine andThen_holds _ _ (sendOutput_holds _ _ holds) ?_
  intro middle held
  have cleared := held.relined Typable.empty
  dsimp only
  split
  · exact sendOutput_holds _ _ cleared
  · rename_i named
    exact runCommand_holds platform io (held.edited.runnable named) cleared

theorem eraseLast_holds (holds : Holds place world) : Holds place (eraseLast io world).2 := by
  unfold eraseLast
  split
  · exact holds
  · exact sendOutput_holds _ _ (holds.relined (holds.edited.part (List.dropLast_sublist _)))

theorem interrupt_holds (holds : Holds place world) : Holds place (interrupt io world).2 := by
  refine andThen_holds _ _ (sendOutput_holds _ _ (holds.relined Typable.empty)) ?_
  intro middle held
  exact sendOutput_holds _ _ held

theorem endOfInput_holds (holds : Holds place world) : Holds place (endOfInput platform io world).2 := by
  unfold endOfInput
  split
  · exact sayGoodbye_holds platform io _ holds
  · exact holds

theorem typed_holds (printable : isPrintable byte = true) (holds : Holds place world) :
    Holds place (typed io byte world).2 := by
  unfold typed
  split
  · exact holds
  · rename_i room
    exact sendOutput_holds _ _ (holds.relined (holds.edited.typed room (printable_visible byte printable)))

-- How one byte moves the flag and the counter.
def follow (byte : UInt8) (place : Bool × Nat) : Bool × Nat :=
  if byte = 0x1b then (true,0)
  else if place.1 then (!(isAlphabetic byte || byte == 0x7e || decide (maxEscapeSeqLen ≤ place.2+1)),place.2+1)
  else place

theorem dataByte_inside (other : byte ≠ 0x1b) (inside : world.session.escapeSeq = true) :
    dataByte platform io byte world = (.next,world.update (escaped byte)) := by
  unfold dataByte
  rw [if_neg other,if_pos inside]

theorem dataByte_holds (byte : UInt8) (holds : Holds place world) :
    Holds (follow byte place) (dataByte platform io byte world).2 := by
  have seen := holds.seen byte
  unfold follow
  split
  · rename_i escape
    rw [dataByte,if_pos escape]
    exact ⟨seen.edited,seen.announced,rfl,rfl⟩
  · rename_i other
    split
    · rename_i inside
      rw [dataByte_inside platform io other (holds.flag.trans inside)]
      refine ⟨holds.edited,holds.announced,?_,?_⟩
      · change (escaped byte world.session).escapeSeq = _
        rw [escaped,holds.counter]
      · change world.session.escapeLen+1 = place.2+1
        rw [holds.counter]
    · rename_i outside
      have plain : ¬ world.session.escapeSeq = true := fun inside => outside (holds.flag.symm.trans inside)
      unfold dataByte
      dsimp only
      rw [if_neg other,if_neg plain]
      split
      · split
        · exact seen
        · exact endLine_holds platform io seen
      · split
        · exact eraseLast_holds io seen
        · split
          · exact interrupt_holds io seen
          · split
            · exact endOfInput_holds platform io seen
            · split
              · rename_i printable
                exact typed_holds io printable seen
              · exact seen

end Bytes

-- The last ESC before this place is fewer bytes back than a sequence may have,
-- and everything behind it was discarded.
def Recent (past : List Handled) (place : Bool × Nat) : Prop :=
  place.1 = true → ∃ earlier escape since, past = earlier ++ escape :: since ∧ escape.byte = 0x1b ∧
    since.length = place.2 ∧ place.2 < maxEscapeSeqLen ∧ ∀ seen ∈ since, seen.byte ≠ 0x1b ∧ seen.session.escapeSeq = true

theorem follow_recent (seen : Handled) (recent : Recent past place) (here : seen.session.escapeSeq = place.1) :
    Recent (past ++ [seen]) (follow seen.byte place) := by
  unfold follow
  split
  · rename_i escape
    intro _
    exact ⟨past,seen,[],rfl,escape,rfl,Nat.zero_lt_succ _,by simp⟩
  · rename_i other
    split
    · rename_i inside
      intro unfinished
      obtain ⟨earlier,escape,since,rfl,started,length,short,discarded⟩ := recent inside
      refine ⟨earlier,escape,since ++ [seen],by simp,started,by simp [length],?_,?_⟩
      · simp only [Bool.not_eq_true',Bool.or_eq_false_iff,decide_eq_false_iff_not] at unfinished
        exact Nat.lt_of_not_le unfinished.2
      · intro late member
        rcases List.mem_append.mp member with old | new
        · exact discarded late old
        · rw [List.mem_singleton.mp new]
          exact ⟨other,here.trans inside⟩
    · rename_i outside
      exact fun inside => absurd inside outside

-- What holds of the bytes handled so far and the world they lead to.
def Tracks (past : List Handled) (world : World) : Prop := ∃ place, Holds place world ∧ Recent past place

section Runs
variable (platform : Platform)

theorem dataLoop_tracks (bytes : List (UInt8 × ByteIo)) (past : List Handled) (tracks : Tracks past world) :
    Tracks (past ++ handledBytes platform bytes world) (dataLoop platform bytes world).2 := by
  induction bytes generalizing past world with
  | nil => simpa [handledBytes,dataLoop] using tracks
  | cons received rest ih =>
    obtain ⟨byte,io⟩ := received
    obtain ⟨place,holds,recent⟩ := tracks
    have stepped : Tracks (past ++ [⟨world.session,byte,io⟩]) (dataByte platform io byte world).2 :=
      ⟨_,dataByte_holds platform io byte holds,follow_recent ⟨world.session,byte,io⟩ recent holds.flag⟩
    simp only [handledBytes,dataLoop]
    generalize dataByte platform io byte world = result at stepped ⊢
    obtain ⟨flow,after⟩ := result
    cases flow with
    | next =>
      have later := ih _ stepped
      rw [List.append_assoc] at later
      exact later
    | returned => exact stepped
    | failed => exact stepped

-- Only bytes move the sequence.
theorem perform_unread (callback : Callback) (unread : ∀ bytes, callback ≠ .data bytes) (holds : Holds place world) :
    Holds place (perform platform world callback) := by
  cases callback with
  | authPassword now user password => exact holds.note rfl
  | authPublickey now user algorithm fingerprint => exact holds.note rfl
  | shellRequest now writes =>
    refine andThen_holds _ _ (sendOutput_holds _ _ (holds.note rfl)) ?_
    intro middle held
    exact sendOutput_holds _ _ held
  | data bytes => exact absurd rfl (unread bytes)
  | channelClose io => exact teardown_holds platform io holds
  | fetchLands io => exact fetchLands_holds platform io holds

theorem perform_tracks (callback : Callback) (past : List Handled) (tracks : Tracks past world) :
    Tracks (past ++ handledIn platform world callback) (perform platform world callback) := by
  by_cases reads : ∃ bytes, callback = .data bytes
  · obtain ⟨bytes,rfl⟩ := reads
    obtain ⟨place,holds,recent⟩ := dataLoop_tracks platform bytes past tracks
    change Tracks _ (SessionInput.data platform bytes world).2
    unfold SessionInput.data
    generalize dataLoop platform bytes world = result at holds ⊢
    obtain ⟨flow,after⟩ := result
    cases flow with
    | next => exact ⟨place,holds.note rfl,recent⟩
    | returned => exact ⟨place,holds,recent⟩
    | failed => exact ⟨place,holds,recent⟩
  · have unread : ∀ bytes, callback ≠ .data bytes := fun bytes same => reads ⟨bytes,same⟩
    have none_ : handledIn platform world callback = [] := by
      cases callback with
      | data bytes => exact absurd rfl (unread bytes)
      | _ => rfl
    obtain ⟨place,holds,recent⟩ := tracks
    rw [none_,List.append_nil]
    exact ⟨place,perform_unread platform callback unread holds,recent⟩

theorem run_tracks (callbacks : List Callback) (past : List Handled) (tracks : Tracks past world) :
    Tracks (past ++ handled platform callbacks world) (run platform callbacks world) := by
  induction callbacks generalizing past world with
  | nil => simpa [handled,run] using tracks
  | cons callback rest ih =>
    have later := ih _ (perform_tracks platform callback past tracks)
    rw [List.append_assoc] at later
    exact later

def sentBytes (callbacks : List Callback) : List (UInt8 × ByteIo) := callbacks.flatMap fun
  | .data bytes => bytes
  | _ => []

-- Within one packet the sequence is finished, or all of the packet belongs to it.
theorem packet_clears (bytes : List (UInt8 × ByteIo)) (plain : ∀ received ∈ bytes, received.1 ≠ 0x1b)
    (holds : Holds (true,length) world) (short : length < maxEscapeSeqLen) :
    (∃ packet rest, bytes = packet ++ rest ∧ length + packet.length ≤ maxEscapeSeqLen ∧
      (dataLoop platform packet world).2.session.escapeSeq = false) ∨
    (∃ after, dataLoop platform bytes world = (.next,after) ∧ Holds (true,length + bytes.length) after ∧
      length + bytes.length < maxEscapeSeqLen) := by
  induction bytes generalizing world length with
  | nil => exact Or.inr ⟨world,rfl,holds,short⟩
  | cons received rest ih =>
    obtain ⟨byte,io⟩ := received
    rw [List.forall_mem_cons] at plain
    have flow : (dataByte platform io byte world).1 = .next := by rw [dataByte_inside platform io plain.1 holds.flag]
    have stepped := dataByte_holds platform io byte holds
    rw [follow,if_neg plain.1,if_pos rfl] at stepped
    cases finished : isAlphabetic byte || byte == 0x7e || decide (maxEscapeSeqLen ≤ length+1) with
    | true =>
      refine Or.inl ⟨[(byte,io)],rest,rfl,short,?_⟩
      rw [dataLoop_next [] flow]
      exact stepped.flag.trans (by rw [finished]; rfl)
    | false =>
      rw [finished] at stepped
      simp only [Bool.or_eq_false_iff,decide_eq_false_iff_not] at finished
      have joined : length + (rest.length+1) = length+1+rest.length := by omega
      rcases ih plain.2 stepped (Nat.lt_of_not_le finished.2) with ⟨packet,behind,rfl,room,cleared⟩ | ⟨after,done,held,room⟩
      · refine Or.inl ⟨(byte,io) :: packet,behind,rfl,?_,?_⟩
        · rw [List.length_cons]
          omega
        · rw [dataLoop_next packet flow]
          exact cleared
      · refine Or.inr ⟨after,(dataLoop_next rest flow).trans done,?_,?_⟩
        · rw [List.length_cons,joined]
          exact held
        · rw [List.length_cons,joined]
          exact room

theorem run_clears (later : List Callback) (plain : ∀ received ∈ sentBytes later, received.1 ≠ 0x1b)
    (enough : maxEscapeSeqLen ≤ length + (sentBytes later).length) (holds : Holds (true,length) world)
    (short : length < maxEscapeSeqLen) :
    ∃ passed packet rest behind, later = passed ++ .data (packet ++ rest) :: behind ∧
      length + ((sentBytes passed).length + packet.length) ≤ maxEscapeSeqLen ∧
      (dataLoop platform packet (run platform passed world)).2.session.escapeSeq = false := by
  induction later generalizing world length with
  | nil =>
    change maxEscapeSeqLen ≤ length at enough
    omega
  | cons callback others ih =>
    by_cases reads : ∃ bytes, callback = .data bytes
    · obtain ⟨bytes,rfl⟩ := reads
      have sent : sentBytes (.data bytes :: others) = bytes ++ sentBytes others := rfl
      rw [sent] at plain enough
      rw [List.length_append] at enough
      rw [List.forall_mem_append] at plain
      rcases packet_clears platform bytes plain.1 holds short with ⟨packet,rest,rfl,room,cleared⟩ | ⟨after,done,held,room⟩
      · exact ⟨[],packet,rest,others,rfl,by simpa [sentBytes] using room,cleared⟩
      · have performed : perform platform world (.data bytes) = after.note .recorderFlushed := by
          change (SessionInput.data platform bytes world).2 = _
          rw [SessionInput.data,done]
        have flushed : Holds (true,length + bytes.length) (perform platform world (.data bytes)) := by
          rw [performed]
          exact held.note rfl
        obtain ⟨passed,packet,rest,behind,rfl,spent,cleared⟩ := ih plain.2 (by omega) flushed room
        refine ⟨.data bytes :: passed,packet,rest,behind,rfl,?_,cleared⟩
        change length + ((bytes ++ sentBytes passed).length + packet.length) ≤ maxEscapeSeqLen
        rw [List.length_append]
        omega
    · have unread : ∀ bytes, callback ≠ .data bytes := fun bytes same => reads ⟨bytes,same⟩
      have sent : ∀ more, sentBytes (callback :: more) = sentBytes more := by
        intro more
        cases callback with
        | data bytes => exact absurd rfl (unread bytes)
        | _ => rfl
      rw [sent] at plain enough
      obtain ⟨passed,packet,rest,behind,rfl,spent,cleared⟩ :=
        ih plain enough (perform_unread platform callback unread holds) short
      exact ⟨callback :: passed,packet,rest,behind,rfl,by rw [sent]; exact spent,cleared⟩

theorem typed_line (byte : UInt8) (io : ByteIo) (world : World) (room : world.session.cmdBuffer.length < maxCommandLen) :
    (typed io byte world).2.session.cmdBuffer = world.session.cmdBuffer ++ [Char.ofNat byte.toNat] := by
  rw [typed,if_neg (Nat.not_le.mpr room),sendOutput_session]
  rfl

theorem dataByte_accepts (byte : UInt8) (io : ByteIo) (world : World) (open_ : world.session.escapeSeq = false)
    (printable : isPrintable byte = true) (room : world.session.cmdBuffer.length < maxCommandLen) :
    (dataByte platform io byte world).2.session.cmdBuffer = world.session.cmdBuffer ++ [Char.ofNat byte.toNat] := by
  have graphic : ∀ control : UInt8, isPrintable control = false → byte ≠ control := by
    intro control unprintable same
    rw [same,unprintable] at printable
    cases printable
  have shut : ¬ world.session.escapeSeq = true := by simp [open_]
  unfold dataByte
  dsimp only
  rw [if_neg (graphic 0x1b rfl),if_neg shut,if_neg (not_or.mpr ⟨graphic 0x0d rfl,graphic 0x0a rfl⟩),
    if_neg (not_or.mpr ⟨graphic 0x7f rfl,graphic 0x08 rfl⟩),if_neg (graphic 0x03 rfl),if_neg (graphic 0x04 rfl),if_pos printable]
  exact typed_line byte io _ room

end Runs

-- What the editor promises at a point of a session, `past` being the bytes
-- handled up to it.
structure InOrder (platform : Platform) (past : List Handled) (world : World) : Prop where
  line : Typable world.session.cmdBuffer
  commands : ∀ event ∈ commandRuns world.host.log, Runnable event.command.toList
  discards : Recent past (world.session.escapeSeq,world.session.escapeLen)
  clears : world.session.escapeSeq = true → ∀ later, (∀ received ∈ sentBytes later, received.1 ≠ 0x1b) →
    maxEscapeSeqLen ≤ (sentBytes later).length → ∃ passed packet rest behind, later = passed ++ .data (packet ++ rest) :: behind ∧
      (sentBytes passed).length + packet.length ≤ maxEscapeSeqLen ∧
      (dataLoop platform packet (run platform passed world)).2.session.escapeSeq = false
  accepts : world.session.escapeSeq = false → ∀ byte io, isPrintable byte = true →
    world.session.cmdBuffer.length < maxCommandLen →
    (dataByte platform io byte world).2.session.cmdBuffer = world.session.cmdBuffer ++ [Char.ofNat byte.toNat]

theorem Tracks.inOrder (platform : Platform) (tracks : Tracks past world) : InOrder platform past world := by
  obtain ⟨place,holds,recent⟩ := tracks
  have same : place = (world.session.escapeSeq,world.session.escapeLen) := by rw [holds.flag,holds.counter]
  subst same
  refine ⟨holds.edited,holds.announced,recent,?_,?_⟩
  · intro inside later plain enough
    obtain ⟨earlier,escape,since,_,_,_,short,_⟩ := recent inside
    have started : Holds (true,world.session.escapeLen) world := ⟨holds.edited,holds.announced,inside,rfl⟩
    obtain ⟨passed,packet,rest,behind,split,spent,cleared⟩ :=
      run_clears platform later plain (enough.trans (Nat.le_add_left _ _)) started short
    exact ⟨passed,packet,rest,behind,split,(Nat.le_add_left _ _).trans spent,cleared⟩
  · intro open_ byte io printable room
    exact dataByte_accepts platform byte io world open_ printable room

-- After any callbacks, and after any bytes of the packet behind them.
theorem input_stays_in_order (platform : Platform) (info : SessionMeta) (config : SessionConfig) (forensics : ForensicsEngine)
    (sandbox : Option SandboxHandle) (rootfs : Path) (layer : Layer) (callbacks : List Callback)
    (bytes : List (UInt8 × ByteIo)) :
    InOrder platform
      (handled platform callbacks (admitted info config forensics sandbox rootfs layer) ++
        handledBytes platform bytes (run platform callbacks (admitted info config forensics sandbox rootfs layer)))
      (dataLoop platform bytes (run platform callbacks (admitted info config forensics sandbox rootfs layer))).2 := by
  have start : Tracks [] (admitted info config forensics sandbox rootfs layer) := by
    refine ⟨(false,0),⟨Typable.empty,?_,rfl,rfl⟩,fun inside => ?_⟩
    · intro event member
      exact absurd member List.not_mem_nil
    · cases inside
  have ran := run_tracks platform callbacks [] start
  exact (dataLoop_tracks platform bytes _ ran).inOrder platform

end AegisHoneypot.InputAutomaton
