import AegisHoneypot.LogGenerations

-- `EventCollector::run` on a disk that may fail at any call.
namespace AegisHoneypot.CollectorFaults
open Utf8Text EventCollector LogGenerations

-- The file behind a `BufWriter`: bytes it has accepted wait in the buffer until
-- they are moved to the file.
structure Log where
  dir : LogDir
  buffer : Bytes
  written : Nat

-- One call on the writer. A call that succeeds may move any number of bytes on;
-- one that fails leaves whatever it leaves.
inductive Call where
  | done (moved : Nat)
  | failed (landed left : Bytes)
  deriving DecidableEq, Repr

def appendBytes (dir : LogDir) (bytes : Bytes) : LogDir := Function.update dir 0 (some ((dir 0).getD [] ++ bytes))

def Log.writeAll (log : Log) (data : Bytes) : Call → Log
  | .done moved =>
    let pending := log.buffer ++ data
    {log with dir := appendBytes log.dir (pending.take moved),buffer := pending.drop moved}
  | .failed landed left => {log with dir := appendBytes log.dir landed,buffer := left}

def Log.flush (log : Log) : Call → Log
  | .done _ => {log with dir := appendBytes log.dir log.buffer,buffer := []}
  | .failed landed left => {log with dir := appendBytes log.dir landed,buffer := left}

-- What happens around one event: its text, if `serde_json` gives one, and how
-- each of the calls on the disk ends.
structure Turn where
  line : Option Line
  text : Call
  newline : Call
  flush : Call
  lastFlush : Call
  rotation : RotateFaults
  opens : Bool
  measures : Bool

inductive Loop where
  | receiving (log : Log)
  | returned (dir : LogDir)

-- Only the error of `open_log` is passed on, and ends the loop.
def rotate (turn : Turn) (log : Log) : Loop :=
  let rotated := (rotateLog turn.rotation (log.flush turn.lastFlush).dir).2
  if turn.opens then
    let opened := openLog rotated
    .receiving ⟨opened.1,[],if turn.measures then opened.2 else 0⟩
  else .returned rotated

def logged (turn : Turn) (line : Line) (log : Log) : Log :=
  let flushed := ((log.writeAll (encode line.text) turn.text).writeAll [Utf8Text.newline] turn.newline).flush turn.flush
  {flushed with written := log.written + line.bytes.length}

def Loop.turn : Loop → Turn → Loop
  | .returned dir,_ => .returned dir
  | .receiving log,turn =>
    match turn.line with
    | none => .receiving log
    | some line =>
      let next := logged turn line log
      if maxLogBytes ≤ next.written then rotate turn next else .receiving next

def run (log : Log) (turns : List Turn) : Loop := turns.foldl Loop.turn (.receiving log)

def Loop.log : Loop → Option Log
  | .receiving log => some log
  | .returned _ => none

def Loop.dir : Loop → LogDir
  | .receiving log => log.dir
  | .returned dir => dir

-- Everything one event can lead to.
inductive TurnStep (turn : Turn) (log : Log) : Loop → Prop where
  | skipped : turn.line = none → TurnStep turn log (.receiving log)
  | appended (line : Line) : turn.line = some line → log.written + line.bytes.length < maxLogBytes →
      TurnStep turn log (.receiving (logged turn line log))
  | rotated (line : Line) : turn.line = some line → maxLogBytes ≤ log.written + line.bytes.length →
      TurnStep turn log (rotate turn (logged turn line log))

theorem turn_step (log : Log) (turn : Turn) : TurnStep turn log ((Loop.receiving log).turn turn) := by
  simp only [Loop.turn]
  split
  · rename_i none
    exact .skipped none
  · rename_i line present
    split
    · rename_i full
      exact .rotated line present full
    · rename_i room
      exact .appended line present (Nat.lt_of_not_le room)

-- The event fills the file, and the new one cannot be opened.
def Stops (turn : Turn) (log : Log) : Prop :=
  turn.opens = false ∧ ∃ line, turn.line = some line ∧ maxLogBytes ≤ log.written + line.bytes.length

theorem turn_stops (log : Log) (turn : Turn) : ((Loop.receiving log).turn turn).log = none ↔ Stops turn log := by
  have step := turn_step log turn
  generalize (Loop.receiving log).turn turn = next at step ⊢
  cases step with
  | skipped none =>
    constructor
    · intro stopped
      cases stopped
    · rintro ⟨_,line,some_,_⟩
      rw [none] at some_
      cases some_
  | appended line present room =>
    constructor
    · intro stopped
      cases stopped
    · rintro ⟨_,other,some_,full⟩
      obtain rfl : line = other := Option.some.inj (present.symm.trans some_)
      omega
  | rotated line present full =>
    unfold rotate
    cases opens : turn.opens with
    | true =>
      constructor
      · intro stopped
        cases stopped
      · rintro ⟨closed,_⟩
        rw [opens] at closed
        cases closed
    | false => exact ⟨fun _ => ⟨opens,line,present,full⟩,fun _ => rfl⟩

structure Writes (turn : Turn) : Prop where
  text : ∃ moved, turn.text = .done moved
  newline : ∃ moved, turn.newline = .done moved
  flush : ∃ moved, turn.flush = .done moved
  lastFlush : ∃ moved, turn.lastFlush = .done moved

-- Every call around this event succeeds.
structure Works (turn : Turn) : Prop extends Writes turn where
  rotation : turn.rotation = .never
  opens : turn.opens = true
  measures : turn.measures = true

theorem appendBytes_append (dir : LogDir) (first second : Bytes) :
    appendBytes (appendBytes dir first) second = appendBytes dir (first ++ second) := by
  simp [appendBytes]

-- Once the disk works, what an earlier failure left in the buffer and the whole
-- line reach the file.
theorem logged_works (works : Writes turn) (line : Line) (log : Log) :
    logged turn line log = ⟨appendBytes log.dir (log.buffer ++ line.bytes),[],log.written + line.bytes.length⟩ := by
  obtain ⟨first,text⟩ := works.text
  obtain ⟨second,newline⟩ := works.newline
  obtain ⟨third,flush⟩ := works.flush
  simp only [logged,text,newline,flush,Log.writeAll,Log.flush,appendBytes_append,Line.bytes]
  have whole : (log.buffer ++ encode line.text).take first ++
      (((log.buffer ++ encode line.text).drop first ++ [Utf8Text.newline]).take second ++
        ((log.buffer ++ encode line.text).drop first ++ [Utf8Text.newline]).drop second) =
      log.buffer ++ (encode line.text ++ [Utf8Text.newline]) := by
    rw [List.take_append_drop,← List.append_assoc,List.take_append_drop,List.append_assoc]
  rw [List.append_assoc,whole]

theorem rotate_works (works : Works turn) (line : Line) (log : Log) :
    rotate turn (logged turn line log) =
      .receiving ⟨(openLog (rotateLog .never (appendBytes log.dir (log.buffer ++ line.bytes))).2).1,[],
        (openLog (rotateLog .never (appendBytes log.dir (log.buffer ++ line.bytes))).2).2⟩ := by
  obtain ⟨moved,last⟩ := works.lastFlush
  have empty : appendBytes (appendBytes log.dir (log.buffer ++ line.bytes)) [] =
      appendBytes log.dir (log.buffer ++ line.bytes) := by rw [appendBytes_append,List.append_nil]
  simp only [rotate,logged_works works.toWrites,last,Log.flush,empty,works.rotation,works.opens,works.measures,if_true]

-- Without any failure the loop is the one of a disk that works.
theorem turn_works (works : Works turn) (present : turn.line = some line) (collector : Collector) :
    (Loop.receiving ⟨collector.dir,[],collector.written⟩).turn turn =
      .receiving ⟨(collector.log line).dir,[],(collector.log line).written⟩ := by
  have step := turn_step ⟨collector.dir,[],collector.written⟩ turn
  generalize (Loop.receiving ⟨collector.dir,[],collector.written⟩).turn turn = next at step ⊢
  have appended : appendBytes collector.dir ([] ++ line.bytes) = appendLine collector.dir line := rfl
  cases step with
  | skipped none => rw [none] at present; cases present
  | appended other some_ room =>
    obtain rfl : line = other := Option.some.inj (present.symm.trans some_)
    rw [logged_works works.toWrites,appended,Collector.log,afterAppend,if_neg (Nat.not_le.mpr room)]
  | rotated other some_ full =>
    obtain rfl : line = other := Option.some.inj (present.symm.trans some_)
    rw [rotate_works works,appended,Collector.log,afterAppend,if_pos full,Collector.start]

-- The line stands at the end of the file, or of the one just rotated.
def Holds (dir : LogDir) (line : Line) : Prop :=
  ∃ earlier, dir 0 = some (earlier ++ line.bytes) ∨ dir 1 = some (earlier ++ line.bytes)

theorem openLog_rotated (dir : LogDir) : (openLog dir).1 1 = dir 1 := by
  simp [openLog]

theorem turn_holds (works : Works turn) (present : turn.line = some line) (log : Log) :
    Holds ((Loop.receiving log).turn turn).dir line := by
  have content : appendBytes log.dir (log.buffer ++ line.bytes) 0 = some ((log.dir 0).getD [] ++ log.buffer ++ line.bytes) := by
    simp [appendBytes]
  have step := turn_step log turn
  generalize (Loop.receiving log).turn turn = next at step ⊢
  cases step with
  | skipped none => rw [none] at present; cases present
  | appended other some_ room =>
    obtain rfl : line = other := Option.some.inj (present.symm.trans some_)
    rw [logged_works works.toWrites]
    exact ⟨_,Or.inl content⟩
  | rotated other some_ full =>
    obtain rfl : line = other := Option.some.inj (present.symm.trans some_)
    rw [rotate_works works]
    refine ⟨(log.dir 0).getD [] ++ log.buffer,Or.inr ?_⟩
    exact (openLog_rotated _).trans (rotateLog_exact _ content 1)

structure Survives (log : Log) (turns : List Turn) : Prop where
  receiving : ∀ before after, turns = before ++ after → ∃ state, run log before = .receiving state
  logged : ∀ before turn after line, turns = before ++ turn :: after → Works turn → turn.line = some line →
    Holds (run log (before ++ [turn])).dir line

theorem run_next (log : Log) (before : List Turn) (turn : Turn) (reached : run log before = .receiving state) :
    run log (before ++ [turn]) = (Loop.receiving state).turn turn := by
  rw [run,List.foldl_append,← run,reached]
  rfl

theorem run_receiving (log : Log) (turns : List Turn)
    (opened : ∀ before turn after state, turns = before ++ turn :: after → run log before = .receiving state →
      ¬ Stops turn state) : ∃ state, run log turns = .receiving state := by
  induction turns using List.reverseRecOn with
  | nil => exact ⟨log,rfl⟩
  | append_singleton turns turn ih =>
    obtain ⟨state,reached⟩ := ih (fun before other after state split => opened before other (after ++ [turn]) state (by simp [split]))
    rw [run_next log turns turn reached]
    have goes := opened turns turn [] state rfl reached
    rw [← turn_stops] at goes
    cases next : (Loop.receiving state).turn turn with
    | receiving log => exact ⟨log,rfl⟩
    | returned dir => exact absurd (by rw [next]; rfl) goes

theorem survives_exact (log : Log) (turns : List Turn) :
    Survives log turns ↔ ∀ before turn after state, turns = before ++ turn :: after → run log before = .receiving state →
      ¬ Stops turn state := by
  constructor
  · intro survives before turn after state split reached stops
    obtain ⟨next,running⟩ := survives.receiving (before ++ [turn]) after (by simp [split])
    rw [run_next log before turn reached] at running
    have stopped := (turn_stops state turn).mpr stops
    rw [running] at stopped
    cases stopped
  · intro opened
    have receiving : ∀ before after, turns = before ++ after → ∃ state, run log before = .receiving state := by
      intro before after split
      refine run_receiving log before ?_
      intro earlier turn later state inner
      exact opened earlier turn (later ++ after) state (by simp [split,inner])
    refine ⟨receiving,?_⟩
    intro before turn after line split works present
    obtain ⟨state,reached⟩ := receiving before (turn :: after) split
    rw [run_next log before turn reached]
    exact turn_holds works present state

-- A log one byte short of the limit, an event while no descriptor is left, and
-- one after that.
def nearlyFull : LogDir := Function.update LogDir.empty 0 (some (List.replicate (maxLogBytes-1) 0x20))

def startedLog : Log := ⟨(openLog nearlyFull).1,[],(openLog nearlyFull).2⟩

def braces : Line := ⟨"{}".toList,by decide,by decide⟩
def brackets : Line := ⟨"[]".toList,by decide,by decide⟩

def unopened : Turn := ⟨some braces,.done 0,.done 0,.done 0,.done 0,.never,false,true⟩
def working : Turn := ⟨some brackets,.done 0,.done 0,.done 0,.done 0,.never,true,true⟩

theorem working_works : Works working := ⟨⟨⟨0,rfl⟩,⟨0,rfl⟩,⟨0,rfl⟩,⟨0,rfl⟩⟩,rfl,rfl,rfl⟩

theorem started_written : startedLog.written = maxLogBytes-1 := by
  simp [startedLog,openLog,nearlyFull]

theorem unopened_returns :
    run startedLog [unopened] = .returned (rotateLog .never (appendBytes startedLog.dir braces.bytes)).2 := by
  have writes : Writes unopened := ⟨⟨0,rfl⟩,⟨0,rfl⟩,⟨0,rfl⟩,⟨0,rfl⟩⟩
  have full : maxLogBytes ≤ startedLog.written + braces.bytes.length := by
    rw [started_written]
    decide
  have empty : appendBytes (appendBytes startedLog.dir braces.bytes) [] = appendBytes startedLog.dir braces.bytes := by
    rw [appendBytes_append,List.append_nil]
  have step := turn_step startedLog unopened
  rw [show [unopened] = [] ++ [unopened] from rfl,run_next startedLog [] unopened rfl]
  generalize (Loop.receiving startedLog).turn unopened = next at step ⊢
  cases step with
  | skipped none => cases none
  | appended line present room =>
    cases present
    omega
  | rotated line present _ =>
    cases present
    rw [rotate,logged_works writes]
    change Loop.returned (rotateLog .never (appendBytes (appendBytes startedLog.dir braces.bytes) [])).2 = _
    rw [empty]

theorem failed_reopen_ends_the_log :
    Works working ∧ (run startedLog [unopened]).log = none ∧
    ¬ Holds (run startedLog [unopened,working]).dir brackets ∧ ¬ Survives startedLog [unopened,working] := by
  have stopped : run startedLog [unopened,working] =
      .returned (rotateLog .never (appendBytes startedLog.dir braces.bytes)).2 := by
    rw [run,show [unopened,working] = [unopened] ++ [working] from rfl,List.foldl_append,← run,unopened_returns]
    rfl
  have content : appendBytes startedLog.dir braces.bytes 0 =
      some (List.replicate (maxLogBytes-1) 0x20 ++ braces.bytes) := by
    simp [appendBytes,startedLog,openLog,nearlyFull]
  have lost : ¬ Holds (run startedLog [unopened,working]).dir brackets := by
    rw [stopped]
    rintro ⟨earlier,current | rotated⟩
    · change (rotateLog .never _).2 0 = _ at current
      rw [rotateLog_current _ content] at current
      cases current
    · change (rotateLog .never _).2 1 = _ at rotated
      rw [rotateLog_exact _ content] at rotated
      have ends := (List.append_inj' (Option.some.inj rotated) (by decide)).2
      exact absurd ends (by decide)
  refine ⟨working_works,by rw [unopened_returns]; rfl,lost,?_⟩
  intro survives
  exact lost (survives.logged [unopened] working [] brackets rfl working_works rfl)

end AegisHoneypot.CollectorFaults
