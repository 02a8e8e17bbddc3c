import AegisHoneypot.SessionPast
import AegisHoneypot.SessionSilence

namespace AegisHoneypot.PacketBoundaries
open FileTree Utf8Text GatewayHost OverlaySandbox Vfs Forensics PayloadFetch SessionHandler SessionInput SessionPast
open SessionSilence

-- The calls of `data` for the packets of a channel; an error ends the connection.
def deliver (platform : Platform) : List (List (UInt8 × ByteIo)) → World → World
  | [],world => world
  | packet :: rest,world => match data platform packet world with
    | (true,next) => deliver platform rest next
    | (false,stopped) => stopped

structure Observed where
  events : List TelemetryEvent
  output : Bytes
  cmdBuffer : Text
  escapeSeq : Bool
  escapeLen : Nat
  vfs : VirtualFileSystem

def observe (world : World) : Observed :=
  ⟨emissions world.host.log,outputs world.host.log,world.session.cmdBuffer,world.session.escapeSeq,world.session.escapeLen,
    world.session.vfs⟩

def Unsplit (platform : Platform) (bytes : List (UInt8 × ByteIo)) (world : World) : Prop :=
  ∀ first second, first.flatten = bytes → second.flatten = bytes →
    observe (deliver platform first world) = observe (deliver platform second world)

-- The byte ends a line `exit` or `logout` and the goodbye goes through: `data`
-- returns and forgets the rest of the packet.
def Leaves (session : ActiveSession) (byte : UInt8) (io : ByteIo) : Prop :=
  CommitsLine session byte io ∧ io.writes 1 = true ∧ io.closes = true ∧
    (session.cmdBuffer.trim.trim = "exit".toList ∨ session.cmdBuffer.trim.trim = "logout".toList)

-- What the line editor does not let show on an empty line: bytes it ignores,
-- erasing nothing, the second half of a line break, a refused write that ends
-- the connection, and escape sequences that leave the counter as it was.
def Unheard (resting : Nat) : Bool → Nat → UInt8 → List (UInt8 × ByteIo) → Prop
  | inside,length,_,[] => inside = false ∧ length = resting
  | inside,length,last,(byte,io) :: rest =>
    if byte = 0x1b then Unheard resting true 0 byte rest
    else if inside then
      Unheard resting (!(isAlphabetic byte || byte == 0x7e || decide (maxEscapeSeqLen ≤ length+1))) (length+1) byte rest
    else if byte = 0x0d ∨ byte = 0x0a then
      if byte = 0x0a ∧ last = 0x0d then Unheard resting false length byte rest
      else io.writes 0 = false ∧ length = resting
    else if byte = 0x7f ∨ byte = 0x08 then Unheard resting false length byte rest
    else if byte = 0x03 ∨ byte = 0x04 then io.writes 0 = false ∧ length = resting
    else isPrintable byte = false ∧ Unheard resting false length byte rest

-- The bytes that the loop over a packet comes to, with what follows each.
def reached (platform : Platform) : List (UInt8 × ByteIo) → World → List (Handled × List (UInt8 × ByteIo))
  | [],_ => []
  | (byte,io) :: rest,world => (⟨world.session,byte,io⟩,rest) :: match dataByte platform io byte world with
    | (.next,after) => reached platform rest after
    | _ => []

def LastWords (seen : Handled × List (UInt8 × ByteIo)) : Prop :=
  Leaves seen.1.session seen.1.byte seen.1.io → ∀ late, late <:+ seen.2 →
    Unheard seen.1.session.escapeLen false seen.1.session.escapeLen seen.1.byte late

structure Alike (left right : World) : Prop where
  session : left.session = right.session
  pending : left.pending = right.pending
  layer : left.host.layer = right.host.layer
  events : emissions left.host.log = emissions right.host.log
  output : outputs left.host.log = outputs right.host.log

theorem Alike.observe (alike : Alike left right) : observe left = observe right := by
  simp only [PacketBoundaries.observe,alike.session,alike.events,alike.output]

theorem Alike.refl (world : World) : Alike world world := ⟨rfl,rfl,rfl,rfl,rfl⟩

theorem flushed_alike (world : World) : Alike (world.note .recorderFlushed) world := by
  refine ⟨rfl,rfl,rfl,?_,?_⟩
  · simp only [World.note,Host.note_log,emissions_append]
    exact List.append_nil _
  · simp only [World.note,Host.note_log,outputs_append]
    exact List.append_nil _

theorem Alike.unlogged (alike : Alike left right) : unlogged left = unlogged right := by
  simp only [SessionPast.unlogged,alike.session,alike.pending,alike.layer]

-- Two worlds that differ in their past only step alike.
theorem behind_alike (alike : Alike left right) (world : World) :
    Alike (worldBehind left.host.log world) (worldBehind right.host.log world) := by
  refine ⟨rfl,rfl,rfl,?_,?_⟩
  · simp only [worldBehind,behind,emissions_append,alike.events]
  · simp only [worldBehind,behind,outputs_append,alike.output]

theorem step_alike (step : World → Flow × World)
    (natural : ∀ past world, step (worldBehind past world) = flowBehind past (step world)) (alike : Alike left right) :
    (step left).1 = (step right).1 ∧ Alike (step left).2 (step right).2 := by
  have leftStep := natural left.host.log (unlogged left)
  have rightStep := natural right.host.log (unlogged left)
  rw [behind_unlogged] at leftStep
  rw [alike.unlogged,behind_unlogged,← alike.unlogged] at rightStep
  rw [leftStep,rightStep]
  exact ⟨rfl,behind_alike alike _⟩

theorem dataByte_alike (platform : Platform) (io : ByteIo) (byte : UInt8) (alike : Alike left right) :
    (dataByte platform io byte left).1 = (dataByte platform io byte right).1 ∧
      Alike (dataByte platform io byte left).2 (dataByte platform io byte right).2 :=
  step_alike (dataByte platform io byte) (fun past world => dataByte_behind past platform io byte world) alike

theorem dataLoop_alike (platform : Platform) (bytes : List (UInt8 × ByteIo)) (alike : Alike left right) :
    (dataLoop platform bytes left).1 = (dataLoop platform bytes right).1 ∧
      Alike (dataLoop platform bytes left).2 (dataLoop platform bytes right).2 :=
  step_alike (dataLoop platform bytes) (fun past world => dataLoop_behind past platform bytes world) alike

theorem reached_alike (platform : Platform) (bytes : List (UInt8 × ByteIo)) (alike : Alike left right) :
    reached platform bytes left = reached platform bytes right := by
  induction bytes generalizing left right with
  | nil => rfl
  | cons received rest ih =>
    obtain ⟨byte,io⟩ := received
    obtain ⟨flow,after⟩ := dataByte_alike platform io byte alike
    simp only [reached,alike.session]
    congr 1
    cases leftStep : dataByte platform io byte left with
    | mk leftFlow leftAfter =>
      cases rightStep : dataByte platform io byte right with
      | mk rightFlow rightAfter =>
        rw [leftStep,rightStep] at flow after
        cases flow
        cases leftFlow with
        | next => exact ih after
        | returned => rfl
        | failed => rfl

theorem dataLoop_next (rest : List (UInt8 × ByteIo)) (flow : (dataByte platform io byte world).1 = .next) :
    dataLoop platform ((byte,io) :: rest) world = dataLoop platform rest (dataByte platform io byte world).2 := by
  simp only [dataLoop]
  generalize dataByte platform io byte world = result at flow ⊢
  obtain ⟨_,after⟩ := result
  cases flow
  rfl

theorem dataLoop_stops (rest : List (UInt8 × ByteIo)) (flow : (dataByte platform io byte world).1 ≠ .next) :
    dataLoop platform ((byte,io) :: rest) world = dataByte platform io byte world := by
  simp only [dataLoop]
  generalize dataByte platform io byte world = result at flow ⊢
  obtain ⟨_ | _ | _,after⟩ := result
  · exact absurd rfl flow
  · rfl
  · rfl

theorem andThen_extends (result : Flow × World) (rest : World → Flow × World)
    (grows : ∀ world, ∃ new, (rest world).2.host.log = world.host.log ++ new) :
    ∃ new, (andThen result rest).2.host.log = result.2.host.log ++ new := by
  obtain ⟨flow,world⟩ := result
  cases flow with
  | next => exact grows world
  | returned => exact ⟨[],(List.append_nil _).symm⟩
  | failed => exact ⟨[],(List.append_nil _).symm⟩

theorem loop_extends (platform : Platform) (io : ByteIo) (byte : UInt8) (rest : List (UInt8 × ByteIo)) (world : World) :
    ∃ new, (dataLoop platform ((byte,io) :: rest) world).2.host.log = (dataByte platform io byte world).2.host.log ++ new :=
  andThen_extends (dataByte platform io byte world) (dataLoop platform rest) (dataLoop_extends platform rest)

-- The line is empty, with the escape state and the last byte as given.
structure Resting (world : World) (inside : Bool) (length : Nat) (last : UInt8) : Prop where
  empty : world.session.cmdBuffer = []
  escapeSeq : world.session.escapeSeq = inside
  escapeLen : world.session.escapeLen = length
  lastByte : world.session.lastByte = last

structure Kept (before after : World) : Prop where
  log : after.host.log = before.host.log
  vfs : after.session.vfs = before.session.vfs

def idle (resting : Nat) (world : World) : Observed :=
  ⟨emissions world.host.log,outputs world.host.log,[],false,resting,world.session.vfs⟩

theorem Kept.idle (kept : Kept before after) (resting : Nat) : idle resting after = idle resting before := by
  simp only [PacketBoundaries.idle,kept.log,kept.vfs]

theorem Resting.observe (rests : Resting world inside length last) :
    observe world = idle resting world ↔ inside = false ∧ length = resting := by
  simp only [PacketBoundaries.observe,PacketBoundaries.idle,rests.empty,rests.escapeSeq,rests.escapeLen,Observed.mk.injEq,
    true_and,and_true]

-- What one byte does on an empty line, against what `Unheard` says of it.
inductive Reaction (resting : Nat) (world : World) (result : Flow × World) (unheard : List (UInt8 × ByteIo) → Prop) : Prop where
  | passes (inside : Bool) (length : Nat) (last : UInt8) : result.1 = .next → Resting result.2 inside length last →
      Kept world result.2 → (∀ rest, unheard rest ↔ Unheard resting inside length last rest) →
      Reaction resting world result unheard
  | stops (length : Nat) (last : UInt8) : result.1 = .failed → Resting result.2 false length last → Kept world result.2 →
      (∀ rest, unheard rest ↔ length = resting) → Reaction resting world result unheard
  | shows : (outputs world.host.log).length < (outputs result.2.host.log).length → (∀ rest, ¬ unheard rest) →
      Reaction resting world result unheard
  | sticks : result.1 = .failed → result.2.session.cmdBuffer ≠ [] → (∀ rest, ¬ unheard rest) →
      Reaction resting world result unheard

theorem sent_longer (text : Text) (named : encode text ≠ []) (world : World) :
    (outputs world.host.log).length < (outputs ((world.note (.sent (encode text))).note (.recorded .output text)).host.log).length := by
  have some_ : 0 < (encode text).length := List.length_pos_iff.mpr named
  simp only [World.note,Host.note_log,outputs_append,List.length_append]
  simp only [outputs,List.flatMap_cons,List.flatMap_nil,List.append_nil]
  omega

theorem longer_extends (longer : before < (outputs log).length) (grows : ∃ new, after = log ++ new) :
    before < (outputs after).length := by
  obtain ⟨new,rfl⟩ := grows
  rw [outputs_append,List.length_append]
  omega

theorem sayGoodbye_extends (platform : Platform) (io : ByteIo) (world : World) :
    ∃ new, (if io.closes then (.next,teardown platform io.teardown (world.note .channelClosed)) else (.failed,world) :
      Flow × World).2.host.log = world.host.log ++ new := by
  split
  · obtain ⟨new,same⟩ := teardown_extends platform io.teardown (world.note .channelClosed)
    exact ⟨.channelClosed :: new,by rw [same]; simp [World.note]⟩
  · exact ⟨[],(List.append_nil _).symm⟩

-- Something is sent, or the channel refuses and nothing has happened.
theorem answer_reaction (resting length : Nat) (last : UInt8) (accepted : Bool) (c : Char) (text : Text)
    (world seen : World) (rest : World → Flow × World) (rests : Resting seen false length last) (kept : Kept world seen)
    (grows : ∀ world, ∃ new, (rest world).2.host.log = world.host.log ++ new) :
    Reaction resting world (andThen (sendOutput accepted (c :: text) seen) rest)
      (fun _ => accepted = false ∧ length = resting) := by
  cases accepted with
  | false => exact .stops length last rfl rests kept (fun _ => by simp)
  | true =>
    refine .shows ?_ (fun _ => by simp)
    rw [← kept.log]
    exact longer_extends (sent_longer (c :: text) (encode_some c text) seen) (andThen_extends _ rest grows)

theorem typed_reaction (resting : Nat) (io : ByteIo) (byte : UInt8) (world seen : World)
    (rests : Resting seen inside length last) (kept : Kept world seen) :
    Reaction resting world (typed io byte seen) (fun _ => False) := by
  unfold typed
  rw [rests.empty,if_neg (by decide)]
  cases io.writes 0 with
  | false => exact .sticks rfl (by simp [sendOutput,World.update]) (fun _ => id)
  | true =>
    refine .shows ?_ (fun _ => id)
    rw [← kept.log]
    exact sent_longer [Char.ofNat byte.toNat] (encode_some _ []) (seen.update _)

theorem endLine_reaction (platform : Platform) (io : ByteIo) (resting : Nat) (world seen : World)
    (rests : Resting seen false length last) (kept : Kept world seen) :
    Reaction resting world (endLine platform io seen) (fun _ => io.writes 0 = false ∧ length = resting) := by
  unfold endLine
  cases accepted : io.writes 0 with
  | false => exact .stops length last rfl rests kept (fun _ => by simp)
  | true =>
    refine .shows ?_ (fun _ => by simp)
    have sent := sent_longer Text.crlf (encode_some '\r' ['\n']) seen
    simp only [sendOutput,if_true,andThen]
    rw [if_pos (show ((seen.note _).note _).session.cmdBuffer.trim = [] by
      change seen.session.cmdBuffer.trim = []
      rw [rests.empty]
      rfl)]
    rw [← kept.log]
    exact longer_extends sent (sendOutput_extends ..)

theorem dataByte_reaction (platform : Platform) (io : ByteIo) (byte : UInt8) (resting : Nat) (world : World)
    (rests : Resting world inside length last) :
    Reaction resting world (dataByte platform io byte world)
      (fun rest => Unheard resting inside length last ((byte,io) :: rest)) := by
  have seen : Resting (world.update (fun session => {session with lastByte := byte})) inside length byte :=
    ⟨rests.empty,rests.escapeSeq,rests.escapeLen,rfl⟩
  have kept : Kept world (world.update (fun session => {session with lastByte := byte})) := ⟨rfl,rfl⟩
  unfold dataByte
  dsimp only [Unheard]
  rw [rests.escapeSeq,rests.lastByte]
  split
  · exact .passes true 0 byte rfl ⟨rests.empty,rfl,rfl,rfl⟩ ⟨rfl,rfl⟩ (fun _ => Iff.rfl)
  · cases inside with
    | true =>
      simp only [if_true]
      refine .passes _ (length+1) byte rfl ⟨rests.empty,?_,?_,rfl⟩ ⟨rfl,rfl⟩ (fun _ => Iff.rfl)
      · simp only [World.update,escaped,rests.escapeLen]
      · simp only [World.update,escaped,rests.escapeLen]
    | false =>
      simp only [Bool.false_eq_true,if_false]
      split
      · split
        · exact .passes false length byte rfl seen kept (fun _ => Iff.rfl)
        · exact endLine_reaction platform io resting world _ seen kept
      · split
        · unfold eraseLast
          rw [if_pos seen.empty]
          exact .passes false length byte rfl seen kept (fun _ => Iff.rfl)
        · split
          · rename_i interrupts
            have either : byte = 0x03 ∨ byte = 0x04 := Or.inl interrupts
            simp only [if_pos either]
            exact answer_reaction resting length byte (io.writes 0) '^' _ world _ _
              ⟨rfl,seen.escapeSeq,seen.escapeLen,rfl⟩ ⟨rfl,rfl⟩ (fun _ => sendOutput_extends ..)
          · split
            · rename_i leaves
              have either : byte = 0x03 ∨ byte = 0x04 := Or.inr leaves
              simp only [if_pos either]
              unfold endOfInput
              rw [if_pos seen.empty]
              exact answer_reaction resting length byte (io.writes 0) 'l' _ world _ _ seen kept
                (fun _ => sayGoodbye_extends ..)
            · rename_i other stays
              simp only [other,stays,or_self,if_false]
              split
              · rename_i shown
                simp only [shown,Bool.true_eq_false,false_and]
                exact typed_reaction resting io byte world _ seen kept
              · rename_i hidden
                simp only [hidden,true_and]
                exact .passes false length byte rfl seen kept (fun _ => Iff.rfl)

-- Bytes on an empty line go unnoticed when they are unheard, and only then.
theorem idle_exact (platform : Platform) (resting : Nat) (late : List (UInt8 × ByteIo)) (world : World)
    (rests : Resting world inside length last) :
    observe (dataLoop platform late world).2 = idle resting world ↔ Unheard resting inside length last late := by
  induction late generalizing world inside length last with
  | nil => exact rests.observe
  | cons received rest ih =>
    obtain ⟨byte,io⟩ := received
    have grown := loop_extends platform io byte rest world
    cases dataByte_reaction platform io byte resting world rests with
    | passes inside length last flow after kept unheard =>
      rw [unheard,← ih _ after,kept.idle,dataLoop_next rest flow]
    | stops length last flow after kept unheard =>
      rw [unheard,← kept.idle,dataLoop_stops rest (by rw [flow]; decide)]
      exact after.observe.trans (by simp)
    | shows longer unheard =>
      refine iff_of_false (fun same => ?_) (unheard rest)
      have output : outputs (dataLoop platform ((byte,io) :: rest) world).2.host.log = outputs world.host.log :=
        congrArg Observed.output same
      have more := longer_extends longer grown
      rw [output] at more
      exact Nat.lt_irrefl _ more
    | sticks flow typed unheard =>
      refine iff_of_false (fun same => ?_) (unheard rest)
      have empty := congrArg Observed.cmdBuffer same
      rw [dataLoop_stops rest (by rw [flow]; decide)] at empty
      exact typed empty

theorem resting_stays (rests : Resting world inside length last) : ¬ Leaves world.session byte io := by
  intro leaves
  have named := leaves.1.2.2.2
  rw [rests.empty] at named
  exact named rfl

theorem unheard_stays (platform : Platform) (resting : Nat) (late : List (UInt8 × ByteIo)) (world : World)
    (rests : Resting world inside length last) (unheard : Unheard resting inside length last late) :
    ∀ seen ∈ reached platform late world, ¬ Leaves seen.1.session seen.1.byte seen.1.io := by
  induction late generalizing world inside length last with
  | nil =>
    intro seen member
    cases member
  | cons received rest ih =>
    obtain ⟨byte,io⟩ := received
    simp only [reached,List.forall_mem_cons]
    refine ⟨resting_stays rests,?_⟩
    cases dataByte_reaction platform io byte resting world rests with
    | passes inside length last flow after kept exact_ =>
      rw [show dataByte platform io byte world = (.next,(dataByte platform io byte world).2) from Prod.ext flow rfl]
      exact ih _ after ((exact_ rest).mp unheard)
    | stops length last flow after kept exact_ =>
      rw [show dataByte platform io byte world = (.failed,(dataByte platform io byte world).2) from Prod.ext flow rfl]
      intro seen member
      cases member
    | shows longer none => exact absurd unheard (none rest)
    | sticks flow typed none => exact absurd unheard (none rest)

theorem runCommand_leaves (platform : Platform) (io : ByteIo) (cmd : Text) (world : World)
    (word : cmd.trim = "exit".toList ∨ cmd.trim = "logout".toList) (logout : io.writes 1 = true) (closes : io.closes = true) :
    ∃ after sandbox, runCommand platform io cmd world = (.returned,after) ∧
      after.session = {world.session with isEnded := true,sandbox := sandbox} := by
  unfold runCommand
  dsimp only
  rw [if_pos word]
  simp only [sayGoodbye,logout,sendOutput,closes,if_true,andThen]
  obtain ⟨sandbox,session⟩ := teardown_session platform io.teardown (World.note _ .channelClosed)
  exact ⟨_,sandbox,rfl,session⟩

-- The loop returns early on the goodbye of a line, and only there.
theorem leaves_returns (platform : Platform) (io : ByteIo) (byte : UInt8) (world : World)
    (leaves : Leaves world.session byte io) :
    ∃ after, dataByte platform io byte world = (.returned,after) ∧ Resting after false world.session.escapeLen byte := by
  obtain ⟨⟨plain,terminator,accepted,named⟩,logout,closes,word⟩ := leaves
  have runs := endLine_runs platform io (world.update (fun session => {session with lastByte := byte})) accepted named
  obtain ⟨after,sandbox,returned,session⟩ := runCommand_leaves platform io world.session.cmdBuffer.trim
    (brokenOff (world.update (fun session => {session with lastByte := byte}))) word logout closes
  refine ⟨after,?_,?_⟩
  · rw [dataByte_ends platform io byte world plain terminator,runs]
    exact returned
  · exact ⟨by rw [session]; rfl,by rw [session]; exact plain,by rw [session]; rfl,by rw [session]; rfl⟩

theorem andThen_returned (result : Flow × World) (rest : World → Flow × World)
    (returned : (andThen result rest).1 = .returned) (first : result.1 ≠ .returned) :
    result.1 = .next ∧ (rest result.2).1 = .returned := by
  obtain ⟨flow,world⟩ := result
  cases flow with
  | next => exact ⟨rfl,returned⟩
  | returned => exact absurd rfl first
  | failed => cases returned

theorem sendOutput_stays : (sendOutput accepted text world).1 ≠ .returned := by
  intro returned
  cases accepted with
  | true => cases returned
  | false => cases returned

theorem sent_next (sent : (sendOutput accepted text world).1 = .next) : accepted = true := by
  cases accepted with
  | true => rfl
  | false => cases sent

theorem sayGoodbye_stays : (sayGoodbye platform io logout world).1 ≠ .returned := by
  intro returned
  have later := (andThen_returned _ _ returned sendOutput_stays).2
  split at later
  · cases later
  · cases later

theorem sayGoodbye_next (next : (sayGoodbye platform io logout world).1 = .next) : logout = true ∧ io.closes = true := by
  unfold sayGoodbye at next
  cases logout with
  | false => cases next
  | true =>
    cases closes : io.closes with
    | true => exact ⟨rfl,rfl⟩
    | false =>
      simp [sendOutput,andThen,closes] at next

theorem runCommand_returned (platform : Platform) (io : ByteIo) (cmd : Text) (world : World)
    (returned : (runCommand platform io cmd world).1 = .returned) :
    io.writes 1 = true ∧ io.closes = true ∧ (cmd.trim = "exit".toList ∨ cmd.trim = "logout".toList) := by
  unfold runCommand at returned
  dsimp only at returned
  split at returned
  · rename_i word
    obtain ⟨logout,closes⟩ := sayGoodbye_next (andThen_returned _ _ returned sayGoodbye_stays).1
    exact ⟨logout,closes,word⟩
  · exact absurd (andThen_returned _ _ returned sendOutput_stays).2 sendOutput_stays

theorem endLine_returned (platform : Platform) (io : ByteIo) (world : World)
    (returned : (endLine platform io world).1 = .returned) :
    io.writes 0 = true ∧ world.session.cmdBuffer.trim ≠ [] ∧ io.writes 1 = true ∧ io.closes = true ∧
      (world.session.cmdBuffer.trim.trim = "exit".toList ∨ world.session.cmdBuffer.trim.trim = "logout".toList) := by
  have accepted : io.writes 0 = true := sent_next (andThen_returned _ _ returned sendOutput_stays).1
  by_cases blank : world.session.cmdBuffer.trim = []
  · have later := (andThen_returned _ _ returned sendOutput_stays).2
    rw [accepted] at later
    dsimp only at later
    rw [if_pos (show (sendOutput true Text.crlf world).2.session.cmdBuffer.trim = [] from blank)] at later
    exact absurd later sendOutput_stays
  · rw [endLine_runs platform io world accepted blank] at returned
    exact ⟨accepted,blank,runCommand_returned platform io _ _ returned⟩

theorem returned_leaves (platform : Platform) (io : ByteIo) (byte : UInt8) (world : World)
    (returned : (dataByte platform io byte world).1 = .returned) : Leaves world.session byte io := by
  have step := dataByte_step platform io byte world
  generalize dataByte platform io byte world = result at step returned
  cases step with
  | escape => cases returned
  | sequence => cases returned
  | ignored => cases returned
  | erases =>
    unfold eraseLast at returned
    split at returned
    · cases returned
    · exact absurd returned sendOutput_stays
  | interrupts => exact absurd (andThen_returned _ _ returned sendOutput_stays).2 sendOutput_stays
  | types =>
    unfold typed at returned
    split at returned
    · cases returned
    · exact absurd returned sendOutput_stays
  | leaves =>
    unfold endOfInput at returned
    split at returned
    · exact absurd returned sayGoodbye_stays
    · cases returned
  | ends terminates =>
    obtain ⟨accepted,named,gone⟩ := endLine_returned platform io _ returned
    exact ⟨⟨terminates.1,terminates.2,accepted,named⟩,gone⟩

theorem dataLoop_append (platform : Platform) (front late : List (UInt8 × ByteIo)) (world : World) :
    dataLoop platform (front ++ late) world = andThen (dataLoop platform front world) (dataLoop platform late) := by
  induction front generalizing world with
  | nil => rfl
  | cons received rest ih =>
    obtain ⟨byte,io⟩ := received
    simp only [List.cons_append,dataLoop]
    cases dataByte platform io byte world with
    | mk flow after =>
      cases flow with
      | next => exact ih after
      | returned => rfl
      | failed => rfl

theorem reached_append (platform : Platform) (front late : List (UInt8 × ByteIo)) (world : World)
    (flow : dataLoop platform front world = (.next,after)) :
    ∀ seen ∈ reached platform late after, seen ∈ reached platform (front ++ late) world := by
  induction front generalizing world with
  | nil =>
    cases flow
    exact fun _ member => member
  | cons received rest ih =>
    obtain ⟨byte,io⟩ := received
    simp only [dataLoop,List.cons_append,reached] at flow ⊢
    cases step : dataByte platform io byte world with
    | mk stepFlow middle =>
      rw [step] at flow
      cases stepFlow with
      | next => exact fun seen member => List.mem_cons_of_mem _ (ih middle flow seen member)
      | returned => cases flow
      | failed => cases flow

-- Where the loop returns inside a packet, the goodbye is among the bytes it
-- has come to, and what follows the packet follows it too.
theorem reached_returned (platform : Platform) (front late : List (UInt8 × ByteIo)) (world : World)
    (flow : dataLoop platform front world = (.returned,after)) :
    ∃ seen ∈ reached platform (front ++ late) world, Leaves seen.1.session seen.1.byte seen.1.io ∧ late <:+ seen.2 ∧
      Resting after false seen.1.session.escapeLen seen.1.byte := by
  induction front generalizing world with
  | nil => cases flow
  | cons received rest ih =>
    obtain ⟨byte,io⟩ := received
    simp only [dataLoop,List.cons_append,reached] at flow ⊢
    cases step : dataByte platform io byte world with
    | mk stepFlow middle =>
      rw [step] at flow
      cases stepFlow with
      | next =>
        obtain ⟨seen,member,leaves,follows,rests⟩ := ih middle flow
        exact ⟨seen,List.mem_cons_of_mem _ member,leaves,follows,rests⟩
      | returned =>
        cases flow
        have leaves : Leaves world.session byte io := returned_leaves platform io byte world (congrArg Prod.fst step)
        obtain ⟨left,same,rests⟩ := leaves_returns platform io byte world leaves
        rw [step] at same
        cases same
        exact ⟨_,List.mem_cons_self,leaves,List.suffix_append rest late,rests⟩
      | failed => cases flow

theorem reached_splits (platform : Platform) (bytes : List (UInt8 × ByteIo)) (world : World) :
    ∀ seen ∈ reached platform bytes world, ∃ front before, bytes = front ++ (seen.1.byte,seen.1.io) :: seen.2 ∧
      dataLoop platform front world = (.next,before) ∧ before.session = seen.1.session := by
  induction bytes generalizing world with
  | nil =>
    intro seen member
    cases member
  | cons received rest ih =>
    obtain ⟨byte,io⟩ := received
    simp only [reached,List.forall_mem_cons]
    refine ⟨⟨[],world,rfl,rfl,rfl⟩,?_⟩
    cases step : dataByte platform io byte world with
    | mk flow after =>
      cases flow with
      | next =>
        intro seen member
        obtain ⟨front,before,same,loop,session⟩ := ih after seen member
        refine ⟨(byte,io) :: front,before,by rw [same]; rfl,?_,session⟩
        simp only [dataLoop,step]
        exact loop
      | returned =>
        intro seen member
        cases member
      | failed =>
        intro seen member
        cases member

theorem data_observe (platform : Platform) (bytes : List (UInt8 × ByteIo)) (world : World) :
    observe (data platform bytes world).2 = observe (dataLoop platform bytes world).2 := by
  unfold data
  cases dataLoop platform bytes world with
  | mk flow after =>
    cases flow with
    | next => exact (flushed_alike after).observe
    | returned => rfl
    | failed => rfl

theorem deliver_one (platform : Platform) (packet : List (UInt8 × ByteIo)) (world : World) :
    deliver platform [packet] world = (data platform packet world).2 := by
  simp only [deliver]
  cases data platform packet world with
  | mk goesOn after =>
    cases goesOn with
    | true => rfl
    | false => rfl

-- By induction on the packets: any split shows what one packet shows.
theorem deliver_whole (platform : Platform) (packets : List (List (UInt8 × ByteIo))) (world : World)
    (lastWords : ∀ seen ∈ reached platform packets.flatten world, LastWords seen) :
    observe (deliver platform packets world) = observe (dataLoop platform packets.flatten world).2 := by
  induction packets generalizing world with
  | nil => rfl
  | cons packet rest ih =>
    rw [List.flatten_cons] at lastWords ⊢
    rw [dataLoop_append]
    simp only [deliver,data]
    cases loop : dataLoop platform packet world with
    | mk flow after =>
      cases flow with
      | next =>
        have flushed := flushed_alike after
        have later : ∀ seen ∈ reached platform rest.flatten (after.note .recorderFlushed), LastWords seen := by
          rw [reached_alike platform rest.flatten flushed]
          exact fun seen member => lastWords seen (reached_append platform packet rest.flatten world loop seen member)
        exact (ih _ later).trans (dataLoop_alike platform rest.flatten flushed).2.observe
      | returned =>
        obtain ⟨seen,member,leaves,follows,rests⟩ := reached_returned platform packet rest.flatten world loop
        have unheard := lastWords seen member leaves rest.flatten follows
        have stays := unheard_stays platform _ rest.flatten after rests unheard
        calc observe (deliver platform rest after)
          _ = observe (dataLoop platform rest.flatten after).2 :=
            ih after (fun late member leaves => absurd leaves (stays late member))
          _ = idle seen.1.session.escapeLen after := (idle_exact platform _ rest.flatten after rests).mpr unheard
          _ = observe after := (rests.observe.mpr ⟨rfl,rfl⟩).symm
      | failed => rfl

-- Cutting the stream between a goodbye and what follows it shows what follows.
theorem unsplit_lastWords (platform : Platform) (bytes : List (UInt8 × ByteIo)) (world : World)
    (unsplit : Unsplit platform bytes world) : ∀ seen ∈ reached platform bytes world, LastWords seen := by
  intro seen member leaves late follows
  obtain ⟨front,before,same,loop,session⟩ := reached_splits platform bytes world seen member
  obtain ⟨middle,between⟩ := follows
  rw [← session] at leaves ⊢
  obtain ⟨after,returned,rests⟩ := leaves_returns platform seen.1.io seen.1.byte before leaves
  have gone : ∀ rest, dataLoop platform (front ++ (seen.1.byte,seen.1.io) :: rest) world = (.returned,after) := by
    intro rest
    rw [dataLoop_append,loop]
    simp only [andThen,dataLoop,returned]
  have cut := unsplit [bytes] [front ++ (seen.1.byte,seen.1.io) :: middle,late] (by simp) (by simp [same,← between])
  have whole : observe (deliver platform [bytes] world) = idle before.session.escapeLen after := by
    rw [deliver_one,data_observe,same,gone]
    exact rests.observe.mpr ⟨rfl,rfl⟩
  have halves : observe (deliver platform [front ++ (seen.1.byte,seen.1.io) :: middle,late] world) =
      observe (dataLoop platform late after).2 := by
    rw [← data_observe,← deliver_one]
    simp only [deliver,data,gone]
  rw [whole,halves] at cut
  exact (idle_exact platform _ late after rests).mp cut.symm

theorem packet_boundaries_exact (platform : Platform) (bytes : List (UInt8 × ByteIo)) (world : World) :
    Unsplit platform bytes world ↔ ∀ seen ∈ reached platform bytes world, LastWords seen := by
  constructor
  · exact unsplit_lastWords platform bytes world
  · intro lastWords first second whole parts
    subst whole
    rw [deliver_whole platform first world lastWords]
    rw [← parts] at lastWords ⊢
    exact (deliver_whole platform second world lastWords).symm

-- `exit` and a further command: in one packet the command is lost, in two it is run.
def exitLine : List (UInt8 × ByteIo) := [(0x65,plainIo),(0x78,plainIo),(0x69,plainIo),(0x74,plainIo)]

def nextLine : List (UInt8 × ByteIo) := [(0x69,plainIo),(0x64,plainIo),(0x0d,plainIo)]

theorem exit_forgets_the_packet : ¬ Unsplit plainPlatform (exitLine ++ (0x0d,plainIo) :: nextLine) plainSession := by
  intro unsplit
  have lastWords := unsplit_lastWords plainPlatform _ plainSession unsplit
  have seen : (reached plainPlatform (exitLine ++ (0x0d,plainIo) :: nextLine) plainSession)[4]? =
      some (⟨(dataLoop plainPlatform exitLine plainSession).2.session,0x0d,plainIo⟩,nextLine) := rfl
  have leaves : Leaves (dataLoop plainPlatform exitLine plainSession).2.session 0x0d plainIo :=
    ⟨⟨rfl,Or.inl rfl,rfl,by decide⟩,rfl,rfl,Or.inl (by decide)⟩
  have unheard := lastWords _ (List.mem_of_getElem? seen) leaves nextLine (List.suffix_refl nextLine)
  exact absurd unheard (by simp [nextLine,Unheard,isPrintable])

end AegisHoneypot.PacketBoundaries
