import AegisHoneypot.EventJson
import AegisHoneypot.SessionArchive
import AegisHoneypot.LogRotation
import AegisHoneypot.TailerHistory
import Mathlib.Data.Int.Basic
import Mathlib.Logic.Encodable.Basic

namespace AegisHoneypot.EventPipeline
open Json Utf8Text LineStream EventJson DashboardStore LogRotation LogTailer TailerHistory Transition

-- The two consumers of `tail_attacks_log`: the store, and what was sent to the
-- subscribers of the live feed.
structure Dashboard where
  store : Store
  live : List TelemetryEvent

def Dashboard.default : Dashboard := ⟨.default,[]⟩

-- The loop over the lines of one poll. `clock n` is the wall clock as the store
-- reads it for the n-th event it takes in.
def handleLine (formats : Formats) (line : Text) : Option TelemetryEvent :=
  if Text.trim line = [] then none else fromStr formats line

def Dashboard.ingestLine (formats : Formats) (clock : Nat → DateTime) (dashboard : Dashboard) (line : Text) : Dashboard :=
  match handleLine formats line with
  | some event => ⟨dashboard.store.ingest (clock dashboard.live.length) event,dashboard.live ++ [event]⟩
  | none => dashboard

def Dashboard.ingestLines (formats : Formats) (clock : Nat → DateTime) (dashboard : Dashboard) (taken : List Text) : Dashboard :=
  taken.foldl (Dashboard.ingestLine formats clock) dashboard

-- The collector, the log directory, the tailer and the dashboard. `recorded`
-- are the events the collector has written; nothing reads them.
structure System where
  world : World
  recorded : List TelemetryEvent
  dashboard : Dashboard

def System.initial : System := ⟨.initial,[],.default⟩

inductive Move where
  | record (event : TelemetryEvent)
  | rotate
  | reopen
  | poll

def Move.action (formats : Formats) : Move → Action
  | .record event => .append (eventLine formats event)
  | .rotate => .rotate
  | .reopen => .reopen
  | .poll => .poll

def polled (world : World) : List Text := handedOn (readNewLines none (world.dir 0) world.offset).1

inductive Step (formats : Formats) (clock : Nat → DateTime) : System → Move → System → Prop where
  | record : system.world.phase = .logging written → Step formats clock system (.record event)
      {system with world := system.world.append written (eventLine formats event),recorded := system.recorded ++ [event]}
  | rotate : system.world.phase = .full → Step formats clock system .rotate {system with world := system.world.rotate}
  | reopen : system.world.phase = .reopening → Step formats clock system .reopen {system with world := system.world.reopen}
  | poll : Step formats clock system .poll
      {system with world := system.world.poll,dashboard := system.dashboard.ingestLines formats clock (polled system.world)}

-- A step at a moment when the length of the file tells of a rotation.
def TimelyMove (formats : Formats) (clock : Nat → DateTime) (before : System) (move : Move) (after : System) : Prop :=
  Step formats clock before move after ∧ before.world.Timely (move.action formats)

def stamped (clock : Nat → DateTime) (events : List TelemetryEvent) : List (DateTime × TelemetryEvent) :=
  events.zipIdx.map fun event => (clock event.2,event.1)

theorem stamped_events (clock : Nat → DateTime) (live : List TelemetryEvent) :
    SessionArchive.Arrivals.events (stamped clock live) = live := by
  have pairs : ∀ from_ : Nat, ((live.zipIdx from_).map (fun event => (clock event.2,event.1))).map Prod.snd = live := by
    induction live with
    | nil => exact fun _ => rfl
    | cons event rest ih =>
      intro from_
      rw [List.zipIdx_cons,List.map_cons,List.map_cons,ih]
  exact pairs 0

-- What the dashboard holds once it has been given these events in this order.
def fed (clock : Nat → DateTime) (events : List TelemetryEvent) : Dashboard :=
  ⟨Store.default.ingestAll (stamped clock events),events⟩

theorem fed_next (clock : Nat → DateTime) (events : List TelemetryEvent) (event : TelemetryEvent) :
    fed clock (events ++ [event]) =
      ⟨(fed clock events).store.ingest (clock (fed clock events).live.length) event,(fed clock events).live ++ [event]⟩ := by
  simp [fed,stamped,List.zipIdx_append,Store.ingestAll]

theorem ingestLines_fed (formats : Formats) (clock : Nat → DateTime) (events : List TelemetryEvent) (taken : List Text) :
    (fed clock events).ingestLines formats clock taken = fed clock (events ++ taken.filterMap (handleLine formats)) := by
  induction taken generalizing events with
  | nil => simp [Dashboard.ingestLines]
  | cons line rest ih =>
    simp only [Dashboard.ingestLines,List.foldl_cons,Dashboard.ingestLine] at ih ⊢
    cases handled : handleLine formats line with
    | none => simpa [handled] using ih events
    | some event =>
      simp only [← fed_next]
      simpa [handled] using ih (events ++ [event])

theorem handleLine_eventLine (formats : Formats) (event : TelemetryEvent) :
    handleLine formats (eventLine formats event).text = reread formats event := by
  have shown : Text.trim (eventLine formats event).text ≠ [] := by
    obtain ⟨c,rest,same,plain⟩ : ∃ c rest, (eventLine formats event).text = c :: rest ∧ Text.isWhitespace c = false :=
      ⟨_,_,rfl,by decide⟩
    rw [same,Text.trim,show Text.trimStart (c :: rest) = c :: rest from List.dropWhile_cons_of_neg (by simp [plain])]
    rw [Text.trimEnd,Ne,List.rdropWhile_eq_nil_iff]
    intro blank
    rw [blank c List.mem_cons_self] at plain
    cases plain
  rw [handleLine,if_neg shown]
  exact fromStr_toString formats event

theorem handled_events (formats : Formats) (events : List TelemetryEvent) :
    ((events.map (eventLine formats)).map Line.text).filterMap (handleLine formats) = events.filterMap (reread formats) := by
  rw [List.map_map,List.filterMap_map]
  exact List.filterMap_congr (fun event _ => handleLine_eventLine formats event)

structure Piped (formats : Formats) (clock : Nat → DateTime) (system : System) : Prop where
  lossless : Lossless system.world
  written : system.world.written = system.recorded.map (eventLine formats)
  dashboard : system.dashboard = fed clock (system.world.delivered.filterMap (handleLine formats))

theorem initial_piped (formats : Formats) (clock : Nat → DateTime) : Piped formats clock .initial :=
  ⟨initial_lossless,rfl,rfl⟩

theorem poll_delivered (world : World) : world.poll.delivered = world.delivered ++ polled world := rfl

theorem world_step (taken : Step formats clock before move after) : LogRotation.Step before.world (move.action formats) after.world := by
  cases taken with
  | record logging => exact .append logging
  | rotate full => exact .rotate full
  | reopen closed => exact .reopen closed
  | poll => exact .poll

theorem step_piped (valid : Piped formats clock before) (taken : TimelyMove formats clock before move after) :
    Piped formats clock after := by
  obtain ⟨step,timely⟩ := taken
  have lossless := step_lossless valid.lossless (world_step step) timely
  cases step with
  | record logging =>
    refine ⟨lossless,?_,valid.dashboard⟩
    simp [World.append,valid.written]
  | rotate full => exact ⟨lossless,valid.written,valid.dashboard⟩
  | reopen closed => exact ⟨lossless,valid.written,valid.dashboard⟩
  | poll =>
    refine ⟨lossless,valid.written,?_⟩
    rw [poll_delivered,List.filterMap_append,← ingestLines_fed,valid.dashboard]

-- Where every rotation finds the tailer caught up and every new file is first
-- seen shorter than the old offset, in whatever order the two go otherwise: the
-- dashboard has taken in the events of a first part of the log, each once, in
-- their order and as they read back, and all of them once it has caught up.
theorem events_reach_the_dashboard (formats : Formats) (clock : Nat → DateTime) (moves : List Move) (system : System)
    (path : Runs (TimelyMove formats clock) .initial moves system) :
    ∃ seen pending, system.recorded = seen ++ pending ∧
      system.dashboard = fed clock (seen.filterMap (reread formats)) ∧
      ((∀ event ∈ system.recorded, Survives formats event) → system.dashboard = fed clock seen) ∧
      (system.world.CaughtUp → pending = []) := by
  have valid : Piped formats clock system :=
    Runs.preserves (initial_piped formats clock) (fun _ _ _ valid taken => step_piped valid taken) path
  obtain ⟨done,unread,account,delivered,synced⟩ := valid.lossless.account
  obtain ⟨seen,pending,recorded,rfl,rfl⟩ := List.map_eq_append_iff.mp (valid.written.symm.trans account)
  have dashboard : system.dashboard = fed clock (seen.filterMap (reread formats)) := by
    rw [valid.dashboard,delivered,handled_events]
  refine ⟨seen,pending,recorded,dashboard,?_,?_⟩
  · intro survive
    have same : seen.filterMap (reread formats) = seen := by
      rw [recorded,List.forall_mem_append] at survive
      refine (List.filterMap_congr (g := some) ?_).trans List.filterMap_some
      exact fun event member => (reread_self formats event).mpr (survive.1 event member)
    rw [dashboard,same]
  · intro caught
    obtain ⟨_,none⟩ := rotate_synced synced caught
    exact List.map_eq_nil_iff.mp none

-- Texts that read back, with the instant 0 as `chrono` prints it.
def plainTime (instant : DateTime) : Text :=
  if instant = 0 then "1970-01-01T00:00:00Z".toList else List.replicate (Encodable.encode instant) '+'

theorem plainTime_epoch : plainTime 0 = "1970-01-01T00:00:00Z".toList := if_pos rfl

noncomputable def plainFormats : Formats where
  time := plainTime
  readTime text := if text = "1970-01-01T00:00:00Z".toList then some 0 else Encodable.decode text.length
  readTime_time := by
    intro instant
    by_cases epoch : instant = 0
    · simp [plainTime,epoch]
    · have other : List.replicate (Encodable.encode instant) '+' ≠ "1970-01-01T00:00:00Z".toList := by
        intro same
        have first := List.eq_of_mem_replicate (same ▸ (by decide : '1' ∈ "1970-01-01T00:00:00Z".toList))
        cases first
      rw [plainTime,if_neg epoch,if_neg other,List.length_replicate,Encodable.encodek]
  readAddress := Function.partialInv AddressText.toText
  readAddress_text := Function.partialInv_left (fun _ _ same => AddressText.toText_injective same)
  float x := if x.isFinite then some ⟨['0'],rfl⟩ else none
  readFloat _ := none
  float_finite x := by cases x.isFinite <;> rfl
  readFloat_finite _ _ := nofun

def whoami : TelemetryEvent := .commandRun ⟨0,"s1",.v4 203 0 113 5,"whoami"⟩

def Move.recorded : Move → List TelemetryEvent
  | .record event => [event]
  | _ => []

-- Every run of collector and tailer over the lines of events is one of the whole
-- pipeline.
theorem piped_run (formats : Formats) (clock : Nat → DateTime) (moves : List Move) {before : System} {world : World}
    (path : Runs TimelyStep before.world (moves.map (Move.action formats)) world) :
    ∃ system, Runs (TimelyMove formats clock) before moves system ∧ system.world = world ∧
      system.recorded = before.recorded ++ moves.flatMap Move.recorded := by
  induction moves using List.reverseRecOn generalizing world with
  | nil => exact ⟨before,.nil,path.stays.symm,by simp⟩
  | append_singleton moves move ih =>
    rw [List.map_append,List.map_singleton] at path
    obtain ⟨middle,path,step,timely⟩ := path.last
    obtain ⟨system,piped,rfl,recorded⟩ := ih path
    rw [List.flatMap_append,List.flatMap_singleton,← List.append_assoc,← recorded]
    cases move with
    | record event =>
      cases step with
      | append logging => exact ⟨_,.snoc piped ⟨.record logging,timely⟩,rfl,rfl⟩
    | rotate =>
      cases step with
      | rotate full => exact ⟨_,.snoc piped ⟨.rotate full,timely⟩,rfl,by simp [Move.recorded]⟩
    | reopen =>
      cases step with
      | reopen closed => exact ⟨_,.snoc piped ⟨.reopen closed,timely⟩,rfl,by simp [Move.recorded]⟩
    | poll =>
      cases step with
      | poll => exact ⟨_,.snoc piped ⟨.poll,timely⟩,rfl,by simp [Move.recorded]⟩

-- One event, then another until the log is full, its rotation and a third one,
-- each polled as soon as it is there.
def steadyMoves (first event next : TelemetryEvent) (count : Nat) : List Move :=
  [.reopen,.record first,.poll] ++ (List.replicate count [.record event,.poll]).flatten ++ [.rotate,.reopen,.poll] ++
    [.record next,.poll]

theorem steadyMoves_recorded (first event next : TelemetryEvent) (count : Nat) :
    (steadyMoves first event next count).flatMap Move.recorded = first :: List.replicate count event ++ [next] := by
  have middle : (List.replicate count [Move.record event,.poll]).flatten.flatMap Move.recorded = List.replicate count event := by
    induction count with
    | zero => rfl
    | succ count ih =>
      rw [List.replicate_succ,List.flatten_cons,List.flatMap_append,ih]
      rfl
  simp [steadyMoves,List.flatMap_append,Move.recorded,middle]

theorem steady_system {formats : Formats} (clock : Nat → DateTime) {first event next : TelemetryEvent}
    (opens : (eventLine formats first).bytes.length ≤ maxTailChunkBytes)
    (fits : (eventLine formats event).bytes.length ≤ maxTailChunkBytes)
    (closes : (eventLine formats next).bytes.length ≤ maxTailChunkBytes) :
    ∃ count system, Runs (TimelyMove formats clock) .initial (steadyMoves first event next count) system ∧
      system.world.CaughtUp ∧ system.recorded = first :: List.replicate count event ++ [next] := by
  obtain ⟨count,world,path,caught,_⟩ := steady_run opens fits closes
  have lines : (steadyMoves first event next count).map (Move.action formats) =
      steadily (eventLine formats first) (eventLine formats event) (eventLine formats next) count := by
    simp [steadyMoves,steadily,drip,List.map_flatten,Move.action]
  rw [← lines] at path
  obtain ⟨system,piped,rfl,recorded⟩ := piped_run formats clock _ (show Runs TimelyStep System.initial.world _ world from path)
  refine ⟨count,system,piped,caught,?_⟩
  rw [recorded,steadyMoves_recorded]
  rfl

theorem whoami_fits : (eventLine plainFormats whoami).bytes.length ≤ maxTailChunkBytes := by
  have value : eventValue plainFormats whoami = object (member "event" (stringValue "COMMAND_RUN") :: [
      member "timestamp" (.string "1970-01-01T00:00:00Z".toList),member "session_id" (stringValue "s1"),
      member "ip" (addressValue (.v4 203 0 113 5)),member "command" (stringValue "whoami")]) := by
    rw [← plainTime_epoch]
    rfl
  have line : (eventLine plainFormats whoami).bytes = encode (eventValue plainFormats whoami).print ++ [newline] := rfl
  rw [line,value]
  decide +kernel

theorem rotated_log_reaches_the_dashboard : ∃ count system,
    Runs (TimelyMove plainFormats fun _ => 0) .initial (steadyMoves whoami whoami whoami count) system ∧
      system.world.CaughtUp ∧ ∃ seen pending, system.recorded = seen ++ pending ∧
      system.dashboard = fed (fun _ => 0) (seen.filterMap (reread plainFormats)) ∧
      ((∀ event ∈ system.recorded, Survives plainFormats event) → system.dashboard = fed (fun _ => 0) seen) ∧
      (system.world.CaughtUp → pending = []) := by
  obtain ⟨count,system,path,caught,_⟩ := steady_system (fun _ => 0) whoami_fits whoami_fits whoami_fits
  exact ⟨count,system,path,caught,events_reach_the_dashboard plainFormats (fun _ => 0) _ system path⟩

-- What a tailer has taken out of a file that begins these lines.
theorem delivered_front (events : List Event) (lines : List Line) (missing : Bytes)
    (begun : (Tail.run events).file.getD [] ++ missing = bytesOf lines) :
    ∃ seen pending, lines = seen ++ pending ∧ (Tail.run events).offset = (bytesOf seen).length ∧
      (Tail.run events).delivered = seen.map Line.text := by
  obtain ⟨start,delivered⟩ := run_faithful events
  obtain ⟨records,behind,closed⟩ := records_of_lineStart start
  have front : records.flatten ++ (((Tail.run events).file.getD []).drop (Tail.run events).offset ++ missing) =
      (lines.map Line.bytes).flatten := by
    rw [← behind,← List.append_assoc,List.take_append_drop]
    exact begun
  obtain ⟨later,split⟩ := records_front closed (bytesOf_stream lines).closed front
  obtain ⟨seen,pending,rfl,rfl,rfl⟩ := List.map_eq_append_iff.mp split
  refine ⟨seen,pending,rfl,?_,?_⟩
  · have length := congrArg List.length behind
    rw [List.length_take_of_le start.1] at length
    exact length
  · rw [delivered,behind,completeLines_records closed,List.map_map]
    exact List.map_congr_left (fun line _ => lossyLine_bytes line)

-- A log that grows by any portions, torn lines among them, and polls that fail
-- anywhere: as long as what is there begins the log of these events, the
-- tailer has read the events of a first part of it and stands behind them.
theorem torn_writes_are_harmless (formats : Formats) (clock : Nat → DateTime) (recorded : List TelemetryEvent)
    (events : List Event) (missing : Bytes)
    (begun : (Tail.run events).file.getD [] ++ missing = bytesOf (recorded.map (eventLine formats))) :
    ∃ seen pending, recorded = seen ++ pending ∧
      (Tail.run events).offset = (bytesOf (seen.map (eventLine formats))).length ∧
      Dashboard.default.ingestLines formats clock (Tail.run events).delivered =
        fed clock (seen.filterMap (reread formats)) := by
  obtain ⟨lines,later,split,position,delivered⟩ := delivered_front events _ missing begun
  obtain ⟨seen,pending,recorded,rfl,rfl⟩ := List.map_eq_append_iff.mp split
  refine ⟨seen,pending,recorded,position,?_⟩
  have fresh : Dashboard.default = fed clock [] := rfl
  rw [delivered,fresh,ingestLines_fed,handled_events,List.nil_append]

theorem torn_command_is_harmless :
    let line := (eventLine plainFormats whoami).bytes
    let events := [Event.grow (line.take 7),.poll none [],.grow (line.drop 7),.poll none []]
    ∃ seen pending, [whoami] = seen ++ pending ∧
      (Tail.run events).offset = (bytesOf (seen.map (eventLine plainFormats))).length ∧
      Dashboard.default.ingestLines plainFormats (fun _ => 0) (Tail.run events).delivered =
        fed (fun _ => 0) (seen.filterMap (reread plainFormats)) := by
  intro line events
  refine torn_writes_are_harmless plainFormats (fun _ => 0) [whoami] events [] ?_
  have file : ∀ first second : Bytes, (Tail.run [.grow first,.poll none [],.grow second,.poll none []]).file = some (first ++ second) :=
    fun _ _ => by simp [Tail.run,Tail.step,Tail.initial]
  rw [file,Option.getD_some,List.take_append_drop,List.append_nil]
  simp [bytesOf,line]

end AegisHoneypot.EventPipeline
