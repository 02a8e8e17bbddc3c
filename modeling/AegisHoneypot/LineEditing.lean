import AegisHoneypot.SessionRecording
import AegisHoneypot.SessionSilence
import AegisHoneypot.TerminalReplay
import AegisHoneypot.VfsHosts

-- What the line editor of a session tells the terminal for each byte.
namespace AegisHoneypot.LineEditing
open FileTree Utf8Text GatewayHost OverlaySandbox Vfs Forensics PayloadFetch SessionHandler SessionInput SessionSilence Chronicle
open SessionRecording TerminalReplay VfsHosts

def goodbye : Text := "logout\r\n".toList

def erasure : Text := ['\x08',' ','\x08']

-- The line before and after a byte, and the texts sent in between.
inductive Edits : Text → Text → List Text → Prop where
  | keeps (line : Text) : Edits line line []
  | types (line : Text) (c : Char) : Visible c → Edits line (line ++ [c]) [[c]]
  | erases (line : Text) : line ≠ [] → Edits line line.dropLast [erasure]
  | prompts (line : Text) (texts : List Text) (vfs : VirtualFileSystem) : Edits line [] (texts ++ [getPrompt vfs])
  | leaves (line : Text) : line.trim ≠ [] → Edits line [] [Text.crlf,goodbye]
  | dismisses : Edits [] [] [goodbye]

def shownTexts (log : List Effect) : List Text := recordedOutput (recordings log)

def commandRuns (log : List Effect) : List CommandRunEvent := log.filterMap fun
  | .emitted (.commandRun event) => some event
  | _ => none

theorem shownTexts_append (log new : List Effect) : shownTexts (log ++ new) = shownTexts log ++ shownTexts new := by
  simp only [shownTexts,recordedOutput,recordings,List.filterMap_append]

theorem commandRuns_append (log new : List Effect) : commandRuns (log ++ new) = commandRuns log ++ commandRuns new :=
  List.filterMap_append ..

-- The log grows by these texts, sent and recorded alike, and these commands.
structure Tells (texts : List Text) (commands : List CommandRunEvent) (before after : World) : Prop where
  grown : ∃ new, after.host.log = before.host.log ++ new
  shown : shownTexts after.host.log = shownTexts before.host.log ++ texts
  sent : outputs after.host.log = outputs before.host.log ++ encode texts.flatten
  runs : commandRuns after.host.log = commandRuns before.host.log ++ commands

theorem Tells.trans (first : Tells early earlyRuns before middle) (second : Tells late lateRuns middle after) :
    Tells (early ++ late) (earlyRuns ++ lateRuns) before after := by
  obtain ⟨old,grown⟩ := first.grown
  obtain ⟨new,grows⟩ := second.grown
  refine ⟨⟨old ++ new,?_⟩,?_,?_,?_⟩
  · rw [grows,grown,List.append_assoc]
  · rw [second.shown,first.shown,List.append_assoc]
  · rw [second.sent,first.sent,List.flatten_append,encode_append,List.append_assoc]
  · rw [second.runs,first.runs,List.append_assoc]

theorem Tells.silent (same : after.host.log = before.host.log) : Tells [] [] before after :=
  ⟨⟨[],by simp [same]⟩,by simp [same],by simp [same,encode],by simp [same]⟩

-- Effects that are neither shown nor a command.
def IsAside : Effect → Prop
  | .sent _ => False
  | .recorded _ _ => False
  | .emitted (.commandRun _) => False
  | _ => True

theorem aside_effect (aside : IsAside effect) : shownTexts [effect] = [] ∧ outputs [effect] = [] ∧ commandRuns [effect] = [] := by
  cases effect with
  | emitted event =>
    cases event with
    | commandRun event => exact absurd aside id
    | _ => exact ⟨rfl,rfl,rfl⟩
  | sent data => exact absurd aside id
  | recorded kind data => exact absurd aside id
  | _ => exact ⟨rfl,rfl,rfl⟩

theorem asides_none (new : List Effect) (asides : ∀ effect ∈ new, IsAside effect) :
    shownTexts new = [] ∧ outputs new = [] ∧ commandRuns new = [] := by
  induction new with
  | nil => exact ⟨rfl,rfl,rfl⟩
  | cons effect rest ih =>
    rw [List.forall_mem_cons] at asides
    obtain ⟨texts,sent,runs⟩ := aside_effect asides.1
    obtain ⟨laterTexts,laterSent,laterRuns⟩ := ih asides.2
    rw [← List.singleton_append,shownTexts_append,outputs_append,commandRuns_append]
    simp only [texts,sent,runs,laterTexts,laterSent,laterRuns,List.append_nil,and_self]

theorem Tells.asides (grows : Grows IsAside before.host.log after.host.log) : Tells [] [] before after := by
  obtain ⟨new,same,asides⟩ := grows
  obtain ⟨texts,sent,runs⟩ := asides_none new asides
  refine ⟨⟨new,same⟩,?_,?_,?_⟩
  · rw [same,shownTexts_append,texts]
  · rw [same,outputs_append,sent]
    rfl
  · rw [same,commandRuns_append,runs]

theorem Tells.note (world : World) (aside : IsAside effect) : Tells [] [] world (world.note effect) :=
  Tells.asides (Grows.one _ aside)

theorem sent_tells (text : Text) (world : World) : Tells [text] [] world (sendOutput true text world).2 := by
  refine ⟨⟨[.sent (encode text),.recorded .output text],?_⟩,?_,?_,?_⟩
  · simp [sendOutput,World.note]
  · simp [sendOutput,World.note,shownTexts,recordedOutput,recordings]
  · simp [sendOutput,World.note,outputs]
  · simp [sendOutput,World.note,commandRuns]

theorem written_tells (text : Text) (world : World) (same : world.host.log = before.host.log) :
    Tells [text] [] before (sendOutput true text world).2 := by
  have silent : Tells [] [] before world := Tells.silent same
  exact silent.trans (sent_tells text world)

theorem prompt_tells (world : World) : Tells [getPrompt world.session.vfs] [] world (sendPrompt true world).2 :=
  sent_tells _ world

theorem prompted_tells (text : Text) (world : World) (same : world.host.log = before.host.log) :
    Tells [text,getPrompt world.session.vfs] [] before (andThen (sendOutput true text world) (sendPrompt true)).2 := by
  have written : Tells [text] [] before (sendOutput true text world).2 := written_tells text world same
  exact written.trans (prompt_tells (sendOutput true text world).2)

theorem told_tells (cmd : Text) (event : CommandRunEvent) (world : World) :
    Tells [] [event] world ((world.note (.recorded .input cmd)).note (.emitted (.commandRun event))) := by
  refine ⟨⟨[.recorded .input cmd,.emitted (.commandRun event)],?_⟩,?_,?_,?_⟩
  · simp [World.note]
  · simp [World.note,shownTexts,recordedOutput,recordings]
  · simp [World.note,outputs,encode]
  · simp [World.note,commandRuns]

theorem cleanup_aside (effect : Effect) (cleans : IsCleanup effect) : IsAside effect := by
  unfold IsAside
  split
  · exact cleans
  · exact cleans
  · exact cleans
  · trivial

theorem download_aside (effect : Effect) (downloads : IsDownload effect) : IsAside effect := by
  unfold IsAside
  split
  · exact downloads
  · exact downloads
  · exact downloads
  · trivial

section Bytes
variable (platform : Platform) (io : ByteIo)

theorem teardown_tells (io : TeardownIo) (world : World) : Tells [] [] world (teardown platform io world) := by
  cases active : world.session.isEnded with
  | true => exact Tells.silent (by rw [teardown_ended platform io world active])
  | false =>
    obtain ⟨later,same,cleans⟩ := teardown_log platform io world active
    refine Tells.asides ⟨_,same,?_⟩
    rw [List.forall_mem_cons]
    exact ⟨trivial,fun effect member => cleanup_aside effect (cleans effect member)⟩

theorem download_tells (cmd : Text) (world : World) : Tells [] [] world (download platform io cmd world).2 := by
  have works : Works [] IsDownload world (download platform io cmd world).2 := download_works platform io cmd world
  exact Tells.asides (works.grows.weaken download_aside)

theorem runShell_tells (cmd : Text) (world : World) : Tells [] [] world (runShell platform io cmd world).2 := by
  have dispatched := dispatch_kept (loggedFs platform) io.date (fun host => Grows IsAside world.host.log host.log)
    (fun host op grows => grows.trans (Grows.one _ trivial)) cmd ⟨world.session.vfs,world.host⟩ (Grows.refl _ _)
  exact Tells.asides (dispatched.trans (Grows.one _ trivial))

theorem respond_tells (cmd : Text) (world : World) : Tells [] [] world (respond platform io cmd world).2 := by
  unfold respond
  split
  · exact download_tells platform io cmd world
  · exact runShell_tells platform io cmd world

theorem download_line (cmd : Text) (world : World) :
    (download platform io cmd world).2.session.cmdBuffer = world.session.cmdBuffer := by
  obtain ⟨count,session⟩ := download_session platform io cmd world
  rw [session]

theorem respond_line (cmd : Text) (world : World) :
    (respond platform io cmd world).2.session.cmdBuffer = world.session.cmdBuffer := by
  unfold respond
  split
  · exact download_line platform io cmd world
  · rfl

-- What is said, and the line that is left.
structure Does (line : Text) (texts : List Text) (runs : List CommandRunEvent) (before after : World) : Prop where
  tells : Tells texts runs before after
  line : after.session.cmdBuffer = line

theorem sayGoodbye_does (world : World) :
    Does world.session.cmdBuffer [goodbye] [] world (sayGoodbye platform io true world).2 := by
  have sent := sent_tells goodbye world
  unfold sayGoodbye
  change Does _ _ _ world (if io.closes then (Flow.next,_) else (Flow.failed,_) : Flow × World).2
  split
  · have aside : IsAside .channelClosed := trivial
    have closed := (sent.trans (Tells.note _ aside)).trans (teardown_tells platform io.teardown _)
    obtain ⟨sandbox,session⟩ := teardown_session platform io.teardown
      ((sendOutput true goodbye world).2.note .channelClosed)
    have line := congrArg ActiveSession.cmdBuffer session
    exact ⟨closed,line⟩
  · exact ⟨sent,rfl⟩

theorem runCommand_does (accepted : ∀ n, io.writes n = true) (cmd : Text) (world : World) :
    ∃ texts event, event.command = String.ofList cmd ∧ (texts = [goodbye] ∨ ∃ answer vfs, texts = [answer,getPrompt vfs]) ∧
      Does world.session.cmdBuffer texts [event] world (runCommand platform io cmd world).2 := by
  have told := told_tells (cmd ++ ['\n']) (commandEvent io world.session.info cmd) world
  unfold runCommand
  dsimp only
  rw [accepted 1,accepted 2]
  split
  · have left := sayGoodbye_does platform io ((world.note (.recorded .input (cmd ++ ['\n']))).note
      (.emitted (.commandRun (commandEvent io world.session.info cmd))))
    refine ⟨[goodbye],commandEvent io world.session.info cmd,rfl,Or.inl rfl,?_⟩
    generalize sayGoodbye platform io true _ = result at left ⊢
    obtain ⟨flow,after⟩ := result
    have both := told.trans left.tells
    cases flow with
    | next => exact ⟨both,left.line⟩
    | returned => exact ⟨both,left.line⟩
    | failed => exact ⟨both,left.line⟩
  · have answered := told.trans (respond_tells platform io cmd _)
    have line := respond_line platform io cmd ((world.note (.recorded .input (cmd ++ ['\n']))).note
      (.emitted (.commandRun (commandEvent io world.session.info cmd))))
    generalize respond platform io cmd _ = answer at answered line ⊢
    have shown := (answered.trans (sent_tells answer.1 answer.2)).trans (prompt_tells (sendOutput true answer.1 answer.2).2)
    exact ⟨[answer.1,getPrompt answer.2.session.vfs],commandEvent io world.session.info cmd,rfl,Or.inr ⟨_,_,rfl⟩,shown,line⟩

theorem brokenOff_does (world : World) : Does [] [Text.crlf] [] world (brokenOff world) :=
  ⟨(sent_tells Text.crlf world).trans (Tells.silent rfl),rfl⟩

-- The line is committed and a command is run, or it is blank.
theorem endLine_does (accepted : ∀ n, io.writes n = true) (world : World) :
    ∃ texts runs, Edits world.session.cmdBuffer [] texts ∧ Does [] texts runs world (endLine platform io world).2 ∧
      (if world.session.cmdBuffer.trim = [] then runs = [] else
        ∃ event, runs = [event] ∧ event.command = String.ofList world.session.cmdBuffer.trim) := by
  have broken := brokenOff_does world
  split
  · rename_i blank
    have prompted := broken.tells.trans (prompt_tells (brokenOff world))
    refine ⟨_,[],.prompts _ [Text.crlf] world.session.vfs,?_,rfl⟩
    unfold endLine
    rw [accepted 0,accepted 1]
    simp only [sendOutput,if_true,andThen]
    rw [if_pos (show ((world.note _).note _).session.cmdBuffer.trim = [] from blank)]
    exact ⟨prompted,rfl⟩
  · rename_i named
    obtain ⟨texts,event,command,kind,does⟩ :=
      runCommand_does platform io accepted world.session.cmdBuffer.trim (brokenOff world)
    rw [endLine_runs platform io world (accepted 0) named]
    refine ⟨Text.crlf :: texts,[event],?_,⟨broken.tells.trans does.tells,does.line⟩,event,rfl,command⟩
    rcases kind with rfl | ⟨answer,vfs,rfl⟩
    · exact .leaves _ named
    · exact .prompts _ [Text.crlf,answer] vfs

-- What one byte does, as an edit and the commands it runs.
structure Acts (session : ActiveSession) (byte : UInt8) (before after : World) (texts : List Text)
    (runs : List CommandRunEvent) : Prop where
  tells : Tells texts runs before after
  edits : Edits session.cmdBuffer after.session.cmdBuffer texts
  ran : CommitsLine session byte io → ∃ event, runs = [event] ∧ event.command = String.ofList session.cmdBuffer.trim
  idle : ¬ CommitsLine session byte io → runs = []

theorem Acts.quiet (other : ¬ CommitsLine session byte io) (tells : Tells texts [] before after)
    (edits : Edits session.cmdBuffer after.session.cmdBuffer texts) : Acts io session byte before after texts [] :=
  ⟨tells,edits,fun commits => absurd commits other,fun _ => rfl⟩

theorem printable_visible (byte : UInt8) (printable : isPrintable byte = true) : Visible (Char.ofNat byte.toNat) := by
  have range : 0x20 ≤ byte.toNat ∧ byte.toNat < 0x7f := by
    simp only [isPrintable,Bool.or_eq_true,Bool.and_eq_true,decide_eq_true_eq,beq_iff_eq,UInt8.le_iff_toNat_le,
      ← UInt8.toNat_inj] at printable
    simp at printable
    omega
  have valid : byte.toNat.isValidChar := Or.inl (by omega)
  have same : (Char.ofNat byte.toNat).toNat = byte.toNat := by
    unfold Char.ofNat
    exact congrArg Char.toNat (dif_pos valid)
  unfold Visible
  rw [same]
  exact range

theorem dataByte_acts (accepted : ∀ n, io.writes n = true) (byte : UInt8) (world : World) :
    ∃ texts runs, Acts io world.session byte world (dataByte platform io byte world).2 texts runs := by
  have seen : Tells [] [] world (world.update (fun session => {session with lastByte := byte})) := Tells.silent rfl
  have quiet : ∀ {texts after}, ¬ TerminatesLine world.session byte → Tells texts [] world after →
      Edits world.session.cmdBuffer after.session.cmdBuffer texts → Acts io world.session byte world after texts [] :=
    fun open_ => Acts.quiet io (fun commits => open_ ⟨commits.1,commits.2.1⟩)
  have step := dataByte_step platform io byte world
  generalize dataByte platform io byte world = result at step ⊢
  cases step with
  | escape inner => exact ⟨_,_,quiet inner.open_ (Tells.silent rfl) (.keeps _)⟩
  | sequence inner => exact ⟨_,_,quiet inner.open_ (Tells.silent rfl) (.keeps _)⟩
  | ignored inner => exact ⟨_,_,quiet inner.open_ seen (.keeps _)⟩
  | erases inner =>
    unfold eraseLast
    split
    · exact ⟨_,_,quiet inner.open_ seen (.keeps _)⟩
    · rename_i some_
      rw [accepted 0]
      exact ⟨_,_,quiet inner.open_ (written_tells erasure _ rfl) (.erases _ some_)⟩
  | interrupts inner =>
    unfold interrupt
    rw [accepted 0,accepted 1]
    exact ⟨_,_,quiet inner.open_ (prompted_tells "^C\r\n".toList _ rfl) (.prompts _ ["^C\r\n".toList] _)⟩
  | types inner printable =>
    unfold typed
    split
    · exact ⟨_,_,quiet inner.open_ seen (.keeps _)⟩
    · rw [accepted 0]
      exact ⟨_,_,quiet inner.open_ (written_tells _ _ rfl) (.types _ _ (printable_visible byte printable))⟩
  | leaves open_ =>
    unfold endOfInput
    split
    · rename_i empty
      rw [accepted 0]
      have does := sayGoodbye_does platform io (world.update (fun session => {session with lastByte := byte}))
      refine ⟨_,_,quiet open_ (seen.trans does.tells) ?_⟩
      change world.session.cmdBuffer = [] at empty
      rw [does.line]
      change Edits world.session.cmdBuffer world.session.cmdBuffer _
      rw [empty]
      exact .dismisses
    · exact ⟨_,_,quiet open_ seen (.keeps _)⟩
  | ends terminates =>
    obtain ⟨texts,runs,edits,does,ran⟩ := endLine_does platform io accepted
      (world.update (fun session => {session with lastByte := byte}))
    change (if world.session.cmdBuffer.trim = [] then _ else _) at ran
    refine ⟨texts,runs,seen.trans does.tells,?_,?_,?_⟩
    · rw [does.line]
      exact edits
    · intro commits
      rw [if_neg commits.2.2.2] at ran
      exact ran
    · intro other
      split at ran
      · exact ran
      · rename_i named
        exact absurd ⟨terminates.1,terminates.2,accepted 0,named⟩ other

end Bytes

end AegisHoneypot.LineEditing
