import AegisHoneypot.ReplayScreen
import AegisHoneypot.PacketBoundaries

namespace AegisHoneypot.ReplayFidelity
open Utf8Text Utf16Text GatewayHost Forensics PayloadFetch OverlaySandbox SessionHandler SessionInput SessionSilence
open SessionPast SessionRecording TerminalReplay LineEditing ReplayScreen PacketBoundaries

-- What the recorder of a session takes from outside: the time it is opened and
-- the readings of its clock, which `serde_json` prints as JSON numbers.
structure CastIo where
  timestamp : Nat
  clock : Nat → Nat → Text
  ticks : Ticks clock

def recording (cast : CastIo) (sessionId : Text) (log : List Effect) : SessionRecorder :=
  recordAll cast.clock 0 (recordings log) (openRecorder cast.timestamp sessionId)

def replayed (cast : CastIo) (sessionId : Text) (log : List Effect) : List Units :=
  parseCast (sessionCast (recording cast sessionId log).file)

structure Stroke where
  world : World
  byte : UInt8
  io : ByteIo

def Stroke.after (platform : Platform) (stroke : Stroke) : World := (dataByte platform stroke.io stroke.byte stroke.world).2

-- The bytes that the loop over a packet comes to, and those of all packets.
def strokesIn (platform : Platform) : List (UInt8 × ByteIo) → World → List Stroke
  | [],_ => []
  | (byte,io) :: rest,world => ⟨world,byte,io⟩ :: match dataByte platform io byte world with
    | (.next,after) => strokesIn platform rest after
    | _ => []

def strokes (platform : Platform) : List (List (UInt8 × ByteIo)) → World → List Stroke
  | [],_ => []
  | packet :: rest,world => strokesIn platform packet world ++ match data platform packet world with
    | (true,after) => strokes platform rest after
    | (false,_) => []

def Accepted (packets : List (List (UInt8 × ByteIo))) : Prop :=
  ∀ packet ∈ packets, ∀ received ∈ packet, ∀ n, received.2.writes n = true

def newRuns (platform : Platform) (stroke : Stroke) : List CommandRunEvent :=
  (commandRuns (stroke.after platform).host.log).drop (commandRuns stroke.world.host.log).length

-- After the byte: the recording is what went over the channel, and its replay
-- ends in the line of the editor.
structure Mirrored (platform : Platform) (cast : CastIo) (sessionId : Text) (stroke : Stroke) : Prop where
  recorded : ∃ text, (replayed cast sessionId (stroke.after platform).host.log).flatten = ofText text ∧
    outputs (stroke.after platform).host.log = encode text
  typed : ofText (stroke.after platform).session.cmdBuffer <:+
    (play (replayed cast sessionId (stroke.after platform).host.log)).line.take
      (play (replayed cast sessionId (stroke.after platform).host.log)).col

-- A command that the byte runs is the text the replay shows before it.
structure Faithful (platform : Platform) (cast : CastIo) (sessionId : Text) (stroke : Stroke) : Prop
    extends Mirrored platform cast sessionId stroke where
  commands : ∀ event ∈ newRuns platform stroke,
    event.command.toList = (toText (enteredText (replayed cast sessionId stroke.world.host.log))).trim

-- The shell has been opened and the first prompt is shown.
def opened (platform : Platform) (now : DateTime) (world : World) : World :=
  (shellRequest platform now (fun _ => true) world).2

-- The editor, the recording and the channel agree.
structure InStep (world : World) : Prop where
  screened : Screened (shownTexts world.host.log) world.session.cmdBuffer
  shown : shownTexts world.host.log ≠ []
  sent : outputs world.host.log = encode (shownTexts world.host.log).flatten

theorem InStep.acts (inStep : InStep before) (acts : Acts io before.session byte before after texts runs) : InStep after := by
  refine ⟨?_,?_,?_⟩
  · rw [acts.tells.shown]
    exact edits_screened acts.edits inStep.screened
  · rw [acts.tells.shown]
    exact List.append_ne_nil_of_left_ne_nil inStep.shown texts
  · rw [acts.tells.sent,acts.tells.shown,inStep.sent,List.flatten_append,encode_append]

theorem dataByte_inStep (platform : Platform) (io : ByteIo) (byte : UInt8) (world : World) (accepted : ∀ n, io.writes n = true)
    (inStep : InStep world) : InStep (dataByte platform io byte world).2 := by
  obtain ⟨texts,runs,acts⟩ := dataByte_acts platform io accepted byte world
  exact inStep.acts acts

theorem InStep.flushed (inStep : InStep world) : InStep (world.note .recorderFlushed) := by
  have quiet : Tells [] [] world (world.note .recorderFlushed) := Tells.note world trivial
  refine ⟨?_,?_,?_⟩
  · rw [quiet.shown,List.append_nil]
    exact inStep.screened
  · rw [quiet.shown,List.append_nil]
    exact inStep.shown
  · rw [quiet.sent,quiet.shown,List.append_nil]
    exact (List.append_nil _).trans inStep.sent

theorem opened_inStep (platform : Platform) (now : DateTime) (world : World) (empty : world.session.cmdBuffer = [])
    (blank : world.host.log = []) : InStep (opened platform now world) := by
  have tells : Tells [banner,getPrompt world.session.vfs] [] world (opened platform now world) := by
    unfold opened shellRequest
    dsimp only
    generalize started : World.note world _ = told
    have aside : Tells [] [] world told := by
      rw [← started]
      exact Tells.note world trivial
    have same : told.session = world.session := by rw [← started]; rfl
    rw [← same]
    exact aside.trans (prompted_tells banner told rfl)
  have start : shownTexts world.host.log = [] ∧ outputs world.host.log = [] := by
    rw [blank]
    exact ⟨rfl,rfl⟩
  refine ⟨?_,?_,?_⟩
  · rw [tells.shown,start.1,show (opened platform now world).session.cmdBuffer = [] from empty]
    exact prompt_screened [banner] world.session.vfs
  · rw [tells.shown]
    exact List.append_ne_nil_of_right_ne_nil _ (List.cons_ne_nil _ _)
  · rw [tells.sent,tells.shown,start.1,start.2,List.nil_append,List.nil_append]

-- What holds at every byte of a run that starts in step.
structure Sighted (platform : Platform) (final : World) (stroke : Stroke) : Prop where
  accepted : ∀ n, stroke.io.writes n = true
  before : InStep stroke.world
  grows : ∃ later, final.host.log = (stroke.after platform).host.log ++ later

theorem strokesIn_sighted (platform : Platform) (bytes : List (UInt8 × ByteIo)) (world : World)
    (accepted : ∀ received ∈ bytes, ∀ n, received.2.writes n = true) (inStep : InStep world) :
    InStep (dataLoop platform bytes world).2 ∧
      ∀ stroke ∈ strokesIn platform bytes world, Sighted platform (dataLoop platform bytes world).2 stroke := by
  induction bytes generalizing world with
  | nil => exact ⟨inStep,by simp [strokesIn]⟩
  | cons received rest ih =>
    obtain ⟨byte,io⟩ := received
    rw [List.forall_mem_cons] at accepted
    have next := dataByte_inStep platform io byte world accepted.1 inStep
    have first : Sighted platform (dataLoop platform ((byte,io) :: rest) world).2 ⟨world,byte,io⟩ :=
      ⟨accepted.1,inStep,loop_extends platform io byte rest world⟩
    simp only [dataLoop,strokesIn,List.forall_mem_cons] at first ⊢
    cases step : dataByte platform io byte world with
    | mk flow after =>
      rw [step] at next first
      cases flow with
      | next =>
        obtain ⟨last,later⟩ := ih after accepted.2 next
        exact ⟨last,first,later⟩
      | returned => exact ⟨next,first,by simp⟩
      | failed => exact ⟨next,first,by simp⟩

theorem Sighted.later (sighted : Sighted platform middle stroke) (grows : ∃ later, final.host.log = middle.host.log ++ later) :
    Sighted platform final stroke := by
  obtain ⟨late,grown⟩ := grows
  obtain ⟨later,same⟩ := sighted.grows
  exact ⟨sighted.accepted,sighted.before,later ++ late,by rw [grown,same,List.append_assoc]⟩

theorem data_sighted (platform : Platform) (packet : List (UInt8 × ByteIo)) (world : World)
    (accepted : ∀ received ∈ packet, ∀ n, received.2.writes n = true) (inStep : InStep world) :
    InStep (data platform packet world).2 ∧
      ∀ stroke ∈ strokesIn platform packet world, Sighted platform (data platform packet world).2 stroke := by
  obtain ⟨last,sighted⟩ := strokesIn_sighted platform packet world accepted inStep
  unfold data
  cases loop : dataLoop platform packet world with
  | mk flow after =>
    rw [loop] at last sighted
    cases flow with
    | next => exact ⟨last.flushed,fun stroke member => (sighted stroke member).later ⟨[.recorderFlushed],rfl⟩⟩
    | returned => exact ⟨last,sighted⟩
    | failed => exact ⟨last,sighted⟩

theorem deliver_extends (platform : Platform) (packets : List (List (UInt8 × ByteIo))) (world : World) :
    ∃ new, (deliver platform packets world).host.log = world.host.log ++ new := by
  induction packets generalizing world with
  | nil => exact ⟨[],(List.append_nil _).symm⟩
  | cons packet rest ih =>
    obtain ⟨first,grown⟩ := data_extends platform packet world
    simp only [deliver]
    cases step : data platform packet world with
    | mk goesOn after =>
      rw [step] at grown
      cases goesOn with
      | true =>
        obtain ⟨later,grows⟩ := ih after
        exact ⟨first ++ later,by rw [grows,grown,List.append_assoc]⟩
      | false => exact ⟨first,grown⟩

theorem strokes_sighted (platform : Platform) (packets : List (List (UInt8 × ByteIo))) (world : World)
    (accepted : Accepted packets) (inStep : InStep world) :
    ∀ stroke ∈ strokes platform packets world, Sighted platform (deliver platform packets world) stroke := by
  induction packets generalizing world with
  | nil => simp [strokes]
  | cons packet rest ih =>
    obtain ⟨first,later⟩ := List.forall_mem_cons.mp accepted
    obtain ⟨next,sighted⟩ := data_sighted platform packet world first inStep
    simp only [strokes,deliver,List.forall_mem_append]
    cases step : data platform packet world with
    | mk goesOn after =>
      rw [step] at next sighted
      cases goesOn with
      | true =>
        exact ⟨fun stroke member => (sighted stroke member).later (deliver_extends platform rest after),ih after later next⟩
      | false => exact ⟨sighted,by simp⟩

theorem recordings_append (log new : List Effect) : recordings (log ++ new) = recordings log ++ recordings new :=
  List.filterMap_append ..

theorem recording_whole (cast : CastIo) (sessionId : Text) (log later : List Effect)
    (whole : (recording cast sessionId (log ++ later)).truncated = false) : (recording cast sessionId log).truncated = false := by
  unfold recording at whole ⊢
  rw [recordings_append] at whole
  exact recordAll_whole cast.clock 0 _ _ _ whole

-- As long as the recording is whole, the replay is what was sent.
theorem replayed_shown (cast : CastIo) (sessionId : Text) (log : List Effect) (some_ : shownTexts log ≠ [])
    (whole : (recording cast sessionId log).truncated = false) : replayed cast sessionId log = (shownTexts log).map ofText := by
  apply parseCast_recorded cast.clock cast.ticks cast.timestamp sessionId (recordings log) _ whole
  intro none
  apply some_
  rw [shownTexts,none]
  rfl

section Strokes
variable {platform : Platform} {final : World} {stroke : Stroke} (sighted : Sighted platform final stroke) (cast : CastIo)
  (sessionId : Text) (whole : (recording cast sessionId final.host.log).truncated = false)
include sighted whole

theorem Sighted.mirrored : Mirrored platform cast sessionId stroke := by
  obtain ⟨later,grown⟩ := sighted.grows
  rw [grown] at whole
  have after : InStep (stroke.after platform) := dataByte_inStep platform stroke.io stroke.byte stroke.world sighted.accepted
    sighted.before
  have replay := replayed_shown cast sessionId _ after.shown (recording_whole cast sessionId _ later whole)
  refine ⟨⟨(shownTexts (stroke.after platform).host.log).flatten,?_,after.sent⟩,?_⟩
  · rw [replay,ofText_flatten]
  · rw [replay]
    exact after.screened.suffix

theorem Sighted.before_whole : (recording cast sessionId stroke.world.host.log).truncated = false := by
  obtain ⟨later,grown⟩ := sighted.grows
  obtain ⟨texts,runs,acts⟩ := dataByte_acts platform stroke.io sighted.accepted stroke.byte stroke.world
  obtain ⟨new,extended⟩ := acts.tells.grown
  rw [grown,Stroke.after,extended] at whole
  exact recording_whole cast sessionId _ new (recording_whole cast sessionId _ later whole)

theorem Sighted.faithful : Faithful platform cast sessionId stroke ↔
    ¬ (Parted (shownTexts stroke.world.host.log) ∧ CommitsLine stroke.world.session stroke.byte stroke.io) := by
  obtain ⟨texts,runs,acts⟩ := dataByte_acts platform stroke.io sighted.accepted stroke.byte stroke.world
  have replay := replayed_shown cast sessionId _ sighted.before.shown (sighted.before_whole cast sessionId whole)
  have fresh : newRuns platform stroke = runs := by
    unfold newRuns Stroke.after
    rw [acts.tells.runs,List.drop_left]
  constructor
  · intro faithful refused
    obtain ⟨event,same,command⟩ := acts.ran refused.2
    have told := faithful.commands event (by rw [fresh,same]; exact List.mem_singleton.mpr rfl)
    rw [command,String.toList_ofList,replay] at told
    exact (sighted.before.screened.entered refused.2.2.2.2).mp told.symm refused.1
  · intro allowed
    refine ⟨sighted.mirrored cast sessionId whole,?_⟩
    intro event member
    rw [fresh] at member
    by_cases commits : CommitsLine stroke.world.session stroke.byte stroke.io
    · obtain ⟨run,same,command⟩ := acts.ran commits
      rw [same,List.mem_singleton] at member
      rw [member,command,String.toList_ofList,replay]
      exact ((sighted.before.screened.entered commits.2.2.2).mpr (fun parted => allowed ⟨parted,commits⟩)).symm
    · rw [acts.idle commits] at member
      cases member

end Strokes

-- The replay keeps up with every byte, and its commands are the typed ones as
-- long as no line is committed between a goodbye and the next prompt.
theorem replay_exact (platform : Platform) (cast : CastIo) (info : SessionMeta) (config : SessionConfig)
    (forensics : ForensicsEngine) (sandbox : Option SandboxHandle) (rootfs : FileTree.Path) (layer : Layer) (now : DateTime)
    (packets : List (List (UInt8 × ByteIo))) (accepted : Accepted packets)
    (whole : (recording cast info.sessionId.toList (deliver platform packets
      (opened platform now (admitted info config forensics sandbox rootfs layer))).host.log).truncated = false) :
    (∀ stroke ∈ strokes platform packets (opened platform now (admitted info config forensics sandbox rootfs layer)),
      Mirrored platform cast info.sessionId.toList stroke) ∧
    ((∀ stroke ∈ strokes platform packets (opened platform now (admitted info config forensics sandbox rootfs layer)),
      Faithful platform cast info.sessionId.toList stroke) ↔
    ∀ stroke ∈ strokes platform packets (opened platform now (admitted info config forensics sandbox rootfs layer)),
      ¬ (Parted (shownTexts stroke.world.host.log) ∧ CommitsLine stroke.world.session stroke.byte stroke.io)) := by
  have inStep := opened_inStep platform now (admitted info config forensics sandbox rootfs layer) rfl rfl
  have sighted := strokes_sighted platform packets _ accepted inStep
  constructor
  · exact fun stroke member => (sighted stroke member).mirrored cast info.sessionId.toList whole
  · exact forall₂_congr (fun stroke member => (sighted stroke member).faithful cast info.sessionId.toList whole)

-- A command, and the same command once more behind a Ctrl-D.
def plainCast : CastIo := ⟨0,fun _ _ => "0.5".toList,fun _ _ => show Json.isNumber "0.5".toList = true by decide⟩

def plainShell : World := opened plainPlatform 0 plainSession

theorem plain_accepts (bytes : List UInt8) :
    ∀ received ∈ bytes.map (fun byte => (byte,plainIo)), ∀ n, received.2.writes n = true := by
  intro received member n
  obtain ⟨byte,_,rfl⟩ := List.mem_map.mp member
  rfl

theorem plain_accepted : Accepted [nextLine,(0x04,plainIo) :: nextLine] := by
  intro packet member
  rcases List.mem_pair.mp member with rfl | rfl
  · exact plain_accepts [0x69,0x64,0x0d]
  · exact plain_accepts [0x04,0x69,0x64,0x0d]

theorem plain_whole : (recording plainCast "7".toList
    (deliver plainPlatform [nextLine,(0x04,plainIo) :: nextLine] plainShell).host.log).truncated = false := by
  decide +kernel

theorem line_replays : Accepted [nextLine] ∧
    (recording plainCast "7".toList (deliver plainPlatform [nextLine] plainShell).host.log).truncated = false ∧
    ∀ stroke ∈ strokes plainPlatform [nextLine] plainShell, Faithful plainPlatform plainCast "7".toList stroke := by
  have accepted : Accepted [nextLine] :=
    fun packet member => plain_accepted packet (List.mem_pair.mpr (Or.inl (List.mem_singleton.mp member)))
  have whole : (recording plainCast "7".toList (deliver plainPlatform [nextLine] plainShell).host.log).truncated = false := by
    obtain ⟨later,grown⟩ := deliver_extends plainPlatform [(0x04,plainIo) :: nextLine] (deliver plainPlatform [nextLine] plainShell)
    have all := plain_whole
    rw [show deliver plainPlatform [nextLine,(0x04,plainIo) :: nextLine] plainShell =
      deliver plainPlatform [(0x04,plainIo) :: nextLine] (deliver plainPlatform [nextLine] plainShell) from rfl,grown] at all
    exact recording_whole plainCast _ _ later all
  have prompted : ∀ stroke ∈ strokes plainPlatform [nextLine] plainShell, ¬ Parted (shownTexts stroke.world.host.log) := by
    decide +kernel
  refine ⟨accepted,whole,?_⟩
  exact (replay_exact plainPlatform plainCast _ _ _ _ _ _ 0 [nextLine] accepted whole).2.mpr
    (fun stroke member refused => prompted stroke member refused.1)

def lateStroke : Stroke := ⟨(dataLoop plainPlatform ctrlD (deliver plainPlatform [nextLine] plainShell)).2,0x0d,plainIo⟩

theorem goodbye_replays_in_command : Accepted [nextLine,(0x04,plainIo) :: nextLine] ∧
    (recording plainCast "7".toList
      (deliver plainPlatform [nextLine,(0x04,plainIo) :: nextLine] plainShell).host.log).truncated = false ∧
    ¬ ∀ stroke ∈ strokes plainPlatform [nextLine,(0x04,plainIo) :: nextLine] plainShell,
      Faithful plainPlatform plainCast "7".toList stroke := by
  refine ⟨plain_accepted,plain_whole,?_⟩
  intro faithful
  have inStep : InStep plainShell := opened_inStep plainPlatform 0 plainSession rfl rfl
  have seen : (strokes plainPlatform [nextLine,(0x04,plainIo) :: nextLine] plainShell)[6]? = some lateStroke := rfl
  have member := List.mem_of_getElem? seen
  have sighted := strokes_sighted plainPlatform _ plainShell plain_accepted inStep lateStroke member
  have parted : Parted (shownTexts lateStroke.world.host.log) := by decide +kernel
  have commits : CommitsLine lateStroke.world.session lateStroke.byte lateStroke.io :=
    ⟨rfl,Or.inl rfl,rfl,by decide +kernel⟩
  exact (sighted.faithful plainCast _ plain_whole).mp (faithful lateStroke member) ⟨parted,commits⟩

end AegisHoneypot.ReplayFidelity
