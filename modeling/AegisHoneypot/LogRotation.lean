import AegisHoneypot.EventCollector
import AegisHoneypot.LogTailer
import AegisHoneypot.Library.Transition

namespace AegisHoneypot.LogRotation
open Utf8Text LineStream EventCollector LogTailer Transition

-- The gateway's collector and the dashboard's tailer, two processes that share
-- the log directory. `unseen` says that the offset still belongs to a rotated
-- file: no poll has found the present one. The last two fields record what was
-- written and what was delivered; neither process reads them.
structure World where
  dir : LogDir
  phase : Phase
  offset : Nat
  unseen : Bool
  written : List Line
  delivered : List Text

def World.initial : World := ⟨.empty,.reopening,0,false,[],[]⟩

inductive Action where
  | append (line : Line)
  | rotate
  | reopen
  | poll

def World.append (world : World) (written : Nat) (line : Line) : World :=
  {world with
    dir := appendLine world.dir line
    phase := afterAppend written line
    written := world.written ++ [line]}

def World.rotate (world : World) : World :=
  {world with
    dir := (rotateLog .never world.dir).2
    phase := .reopening
    unseen := decide (0 < world.offset)}

def World.reopen (world : World) : World :=
  {world with
    dir := (openLog world.dir).1
    phase := .logging (openLog world.dir).2}

def World.poll (world : World) : World :=
  let result := readNewLines none (world.dir 0) world.offset
  {world with
    offset := result.2
    unseen := world.unseen && (world.dir 0).isNone
    delivered := world.delivered ++ match result.1 with
      | .ok taken => taken
      | .error _ => []}

inductive Step : World → Action → World → Prop where
  | append : world.phase = .logging written → Step world (.append line) (world.append written line)
  | rotate : world.phase = .full → Step world .rotate world.rotate
  | reopen : world.phase = .reopening → Step world .reopen world.reopen
  | poll : Step world .poll world.poll

def World.CaughtUp (world : World) : Prop :=
  world.unseen = false ∧ ∃ content, world.dir 0 = some content ∧ world.offset = content.length

-- The moments at which the length of the file alone tells the tailer of a
-- rotation: nothing was left unread, and the new file is still shorter than the
-- old offset when it is first seen.
def World.Timely (world : World) : Action → Prop
  | .append _ => True
  | .rotate => world.CaughtUp
  | .reopen => True
  | .poll => world.unseen = true → ∀ content, world.dir 0 = some content → content.length < world.offset

def bytesOf (written : List Line) : Bytes := (written.map Line.bytes).flatten

inductive Synced (world : World) (unread : List Line) : Prop where
  | absent : world.dir 0 = none → unread = [] → world.phase = .reopening →
      (world.unseen = false → world.offset = 0) → Synced world unread
  | unseen : world.dir 0 = some (bytesOf unread) → world.phase ≠ .reopening → world.unseen = true → Synced world unread
  | seen (behind : Bytes) : world.dir 0 = some (behind ++ bytesOf unread) → world.phase ≠ .reopening →
      world.unseen = false → world.offset = behind.length → Synced world unread

structure Lossless (world : World) : Prop where
  account : ∃ taken unread, world.written = taken ++ unread ∧ world.delivered = taken.map Line.text ∧
    Synced world unread

theorem initial_lossless : Lossless .initial :=
  ⟨[],[],rfl,rfl,.absent rfl rfl rfl (fun _ => rfl)⟩

theorem bytesOf_append (left right : List Line) : bytesOf (left ++ right) = bytesOf left ++ bytesOf right := by
  simp [bytesOf]

theorem bytesOf_nil (written : List Line) (none : bytesOf written = []) : written = [] := by
  cases written with
  | nil => rfl
  | cons line rest => simp [bytesOf,Line.bytes] at none

theorem append_synced {written : Nat} (line : Line) (valid : Synced world unread) (logging : world.phase = .logging written) :
    Synced (world.append written line) (unread ++ [line]) := by
  have open_ : afterAppend written line ≠ .reopening := by
    unfold afterAppend
    split <;> simp
  have one : bytesOf [line] = line.bytes := by simp [bytesOf]
  cases valid with
  | absent _ _ idle _ => rw [idle] at logging; cases logging
  | unseen content _ fresh =>
    refine .unseen ?_ open_ fresh
    simp [World.append,appendLine,content,bytesOf_append,one]
  | seen behind content _ fresh position =>
    refine .seen behind ?_ open_ fresh position
    simp [World.append,appendLine,content,bytesOf_append,one]

theorem rotate_synced (valid : Synced world unread) (timely : world.CaughtUp) : Synced world.rotate [] ∧ unread = [] := by
  obtain ⟨fresh,content,present,caught⟩ := timely
  have gone : world.rotate.dir 0 = none := rotateLog_current world.dir present
  have unseen : world.rotate.unseen = false → world.rotate.offset = 0 := by
    intro low
    have zero : ¬ 0 < world.offset := of_decide_eq_false low
    exact Nat.eq_zero_of_not_pos zero
  refine ⟨.absent gone rfl rfl unseen,?_⟩
  cases valid with
  | absent missing _ _ _ => rw [missing] at present; cases present
  | unseen _ _ stale => rw [fresh] at stale; cases stale
  | seen behind same _ _ position =>
    rw [present] at same
    cases same
    rw [position,List.length_append] at caught
    exact bytesOf_nil unread (List.eq_nil_of_length_eq_zero (by omega))

theorem reopen_synced (valid : Synced world unread) (closed : world.phase = .reopening) :
    Synced world.reopen unread := by
  cases valid with
  | unseen _ busy _ => exact absurd closed busy
  | seen _ _ busy _ _ => exact absurd closed busy
  | absent missing none _ start =>
    subst none
    have content : world.reopen.dir 0 = some [] := by simp [World.reopen,openLog,missing]
    cases stale : world.unseen with
    | true => exact .unseen content (by simp [World.reopen]) stale
    | false => exact .seen [] content (by simp [World.reopen]) stale (start stale)

theorem bytesOf_stream (written : List Line) : IsStream isNewlineByte (written.map Line.bytes) [] := by
  refine ⟨?_,by simp⟩
  intro record member
  obtain ⟨line,_,rfl⟩ := List.mem_map.mp member
  exact line.record

theorem read_unread (behind : Bytes) (unread : List Line) :
    ∃ taken remaining, unread = taken ++ remaining ∧
      readNewLines none (some (behind ++ bytesOf unread)) behind.length =
        (.ok (taken.map Line.text),behind.length + (bytesOf taken).length) := by
  obtain ⟨records,rest,split,result,_,_⟩ := readNewLines_taken behind (bytesOf_stream unread)
  obtain ⟨taken,remaining,rfl,rfl,rfl⟩ := List.map_eq_append_iff.mp split
  refine ⟨taken,remaining,rfl,?_⟩
  rw [List.append_nil,lines_written] at result
  exact result

theorem readNewLines_reset (content : Bytes) (shrunk : content.length < offset) :
    readNewLines none (some content) offset = readNewLines none (some content) 0 := by
  simp [readNewLines,shrunk]

theorem poll_fresh {world : World} (behind : Bytes) (present : world.dir 0 = some (behind ++ bytesOf unread))
    (running : world.phase ≠ .reopening)
    (same : readNewLines none (world.dir 0) world.offset = readNewLines none (world.dir 0) behind.length) :
    ∃ taken remaining, unread = taken ++ remaining ∧
      world.poll.delivered = world.delivered ++ taken.map Line.text ∧ Synced world.poll remaining := by
  obtain ⟨taken,remaining,rfl,result⟩ := read_unread behind unread
  rw [present,result] at same
  refine ⟨taken,remaining,rfl,?_,?_⟩
  · simp only [World.poll,present]
    rw [same]
  · refine .seen (behind ++ bytesOf taken) ?_ running ?_ ?_
    · simp [World.poll,present,bytesOf_append]
    · simp [World.poll,present]
    · simp only [World.poll,present]
      rw [same,List.length_append]

theorem poll_synced (valid : Synced world unread) (timely : world.Timely .poll) :
    ∃ taken remaining, unread = taken ++ remaining ∧
      world.poll.delivered = world.delivered ++ taken.map Line.text ∧ Synced world.poll remaining := by
  cases valid with
  | absent missing none idle start =>
    subst none
    refine ⟨[],[],rfl,by simp [World.poll,missing,readNewLines],.absent missing rfl idle ?_⟩
    simpa [World.poll,missing,readNewLines] using start
  | unseen present running stale =>
    have shrunk := timely stale _ present
    refine poll_fresh [] present running ?_
    rw [present,readNewLines_reset _ shrunk]
    rfl
  | seen behind present running fresh position =>
    exact poll_fresh behind present running (by rw [position])

theorem step_lossless (valid : Lossless world) (taken : Step world action next) (timely : world.Timely action) :
    Lossless next := by
  obtain ⟨done,unread,account,delivered,synced⟩ := valid.account
  cases taken with
  | append logging =>
    refine ⟨done,unread ++ [_],?_,delivered,append_synced _ synced logging⟩
    simp [World.append,account]
  | rotate full =>
    obtain ⟨empty,rfl⟩ := rotate_synced synced timely
    exact ⟨done,[],account,delivered,empty⟩
  | reopen closed => exact ⟨done,unread,account,delivered,reopen_synced synced closed⟩
  | poll =>
    obtain ⟨more,remaining,rfl,appended,synced⟩ := poll_synced synced timely
    refine ⟨done ++ more,remaining,?_,?_,synced⟩
    · rw [List.append_assoc]; exact account
    · rw [appended,delivered,List.map_append]

def TimelyStep (world : World) (action : Action) (next : World) : Prop :=
  Step world action next ∧ world.Timely action

theorem rotation_loses_nothing (actions : List Action) (world : World)
    (path : Runs TimelyStep .initial actions world) (caught : world.CaughtUp) :
    world.delivered = world.written.map Line.text := by
  have valid : Lossless world := Runs.preserves initial_lossless
    (fun _ _ _ valid taken => step_lossless valid taken.1 taken.2) path
  obtain ⟨done,unread,account,delivered,synced⟩ := valid.account
  obtain ⟨_,none⟩ := rotate_synced synced caught
  rw [account,delivered,none,List.append_nil]

theorem turn_run {world : World} (line : Line) {written : Nat} (logging : world.phase = .logging written) (caught : world.CaughtUp) :
    Runs TimelyStep world [.append line,.poll] (world.append written line).poll := by
  refine (Runs.one ⟨.append logging,trivial⟩).append (Runs.one ⟨.poll,?_⟩)
  intro stale
  exact absurd (caught.1.symm.trans stale) (by decide)

section Steady
variable {line : Line} (fits : line.bytes.length ≤ maxTailChunkBytes)
include fits

theorem line_polled (behind : Bytes) :
    readNewLines none (some (behind ++ line.bytes)) behind.length = (.ok [line.text],behind.length + line.bytes.length) := by
  obtain ⟨taken,remaining,split,result,_,stuck⟩ := readNewLines_taken behind (bytesOf_stream [line])
  cases taken with
  | nil =>
    have long := stuck rfl line.bytes rfl
    omega
  | cons record taken =>
    obtain ⟨rfl,rest⟩ := List.cons.inj split
    obtain ⟨rfl,rfl⟩ := List.append_eq_nil_iff.mp rest.symm
    have texts := lines_written [line]
    simp only [List.map_cons,List.map_nil,List.flatten_cons,List.flatten_nil,List.append_nil] at result texts
    rw [texts] at result
    exact result

theorem polled_caughtUp {world : World} (written : Nat) (caught : world.CaughtUp) :
    (world.append written line).poll.CaughtUp := by
  obtain ⟨fresh,content,present,behind⟩ := caught
  have longer : (world.append written line).dir 0 = some (content ++ line.bytes) := by
    simp [World.append,appendLine,present]
  have offset : (world.append written line).offset = content.length := behind
  refine ⟨?_,content ++ line.bytes,longer,?_⟩
  · rw [World.poll,longer]
    exact Bool.and_false _
  · simp only [World.poll]
    rw [longer,offset,line_polled fits,List.length_append]

-- A line at a time, each polled before the next is written.
def drip (line : Line) (count : Nat) : List Action := (List.replicate count [.append line,.poll]).flatten

-- The induction is on the room left in the file.
theorem drip_fills {world : World} {written : Nat} (logging : world.phase = .logging written) (caught : world.CaughtUp) :
    ∃ count next, Runs TimelyStep world (drip line count) next ∧ next.phase = .full ∧ next.CaughtUp ∧
      next.written = world.written ++ List.replicate count line := by
  induction room : maxLogBytes - written using Nat.strongRecOn generalizing world written with
  | ind room ih =>
    have current : ((world.append written line).poll).CaughtUp := polled_caughtUp fits written caught
    have turn := turn_run line logging caught
    by_cases full : maxLogBytes ≤ written + line.bytes.length
    · refine ⟨1,_,by simpa [drip] using turn,?_,current,rfl⟩
      exact if_pos full
    · have bytes : 0 < line.bytes.length := by simp [Line.bytes]
      have logging : ((world.append written line).poll).phase = .logging (written + line.bytes.length) := if_neg full
      obtain ⟨count,last,path,full,caught,lines⟩ := ih (maxLogBytes - (written + line.bytes.length)) (by omega) logging current rfl
      refine ⟨count+1,last,?_,full,caught,?_⟩
      · rw [drip,List.replicate_succ,List.flatten_cons]
        exact turn.append path
      · rw [lines,List.replicate_succ]
        exact List.append_assoc _ _ _

end Steady

theorem caughtUp_rotates {world : World} (full : world.phase = .full) (caught : world.CaughtUp) :
    ∃ next, Runs TimelyStep world [.rotate,.reopen,.poll] next ∧ next.phase = .logging 0 ∧ next.CaughtUp ∧
      next.written = world.written := by
  obtain ⟨_,content,present,_⟩ := id caught
  have gone : world.rotate.dir 0 = none := rotateLog_current world.dir present
  have fresh : world.rotate.reopen.dir 0 = some [] := by simp [World.reopen,openLog,gone]
  have reset : readNewLines none (some []) world.offset = (.ok [],0) := by
    by_cases read : world.offset = 0
    · rw [read]
      rfl
    · rw [readNewLines_reset [] (Nat.pos_of_ne_zero read)]
      rfl
  refine ⟨world.rotate.reopen.poll,?_,?_,⟨?_,[],fresh,?_⟩,rfl⟩
  · refine ((Runs.one ⟨.rotate full,caught⟩).append (Runs.one ⟨.reopen rfl,trivial⟩)).append (Runs.one ⟨.poll,?_⟩)
    intro stale content shown
    rw [fresh] at shown
    cases shown
    exact of_decide_eq_true stale
  · simp [World.poll,World.reopen,openLog,gone]
  · simp [World.poll,fresh]
  · simp only [World.poll]
    rw [fresh]
    exact congrArg Prod.snd reset

def steadily (first line next : Line) (count : Nat) : List Action :=
  [.reopen,.append first,.poll] ++ drip line count ++ [.rotate,.reopen,.poll] ++ [.append next,.poll]

-- A log that is followed line by line to its limit, across its rotation and into
-- the next file.
theorem steady_run {first line next : Line} (opens : first.bytes.length ≤ maxTailChunkBytes)
    (fits : line.bytes.length ≤ maxTailChunkBytes) (closes : next.bytes.length ≤ maxTailChunkBytes) :
    ∃ count world, Runs TimelyStep .initial (steadily first line next count) world ∧
      world.CaughtUp ∧ world.written = first :: List.replicate count line ++ [next] := by
  have opened : World.initial.reopen.CaughtUp := ⟨rfl,[],rfl,rfl⟩
  have logging : ((World.initial.reopen.append 0 first).poll).phase = .logging (0 + first.bytes.length) := by
    have chunk : maxTailChunkBytes < maxLogBytes := by decide
    exact if_neg (by omega)
  obtain ⟨count,filled,filling,full,caught,lines⟩ := drip_fills fits logging (polled_caughtUp opens 0 opened)
  obtain ⟨fresh,rotation,ready,current,same⟩ := caughtUp_rotates full caught
  refine ⟨count,(fresh.append 0 next).poll,?_,polled_caughtUp closes 0 current,?_⟩
  · have begun := (Runs.one ⟨.reopen rfl,trivial⟩).append (turn_run first rfl opened)
    exact ((begun.append filling).append rotation).append (turn_run next ready current)
  · exact congrArg (· ++ [next]) (same.trans lines)

def emptyObject : Line := ⟨['\x7b','\x7d'],by decide,by decide⟩

theorem rotation_loses_nothing_at_a_rotation : ∃ count world,
    Runs TimelyStep .initial (steadily emptyObject emptyObject emptyObject count) world ∧
      world.delivered = List.replicate (count+2) emptyObject.text := by
  have fits : emptyObject.bytes.length ≤ maxTailChunkBytes := by decide
  obtain ⟨count,world,path,caught,written⟩ := steady_run fits fits fits
  refine ⟨count,world,path,?_⟩
  rw [rotation_loses_nothing _ world path caught,written,List.cons_append,← List.replicate_succ',← List.replicate_succ,
    List.map_replicate]

def plainLine (width : Nat) : Line where
  text := List.replicate width 'a'
  oneLine := by
    intro member
    cases List.eq_of_mem_replicate member
  bare := by
    intro last
    cases List.eq_of_mem_replicate (List.mem_of_getLast? last)

theorem plainLine_length (width : Nat) : (plainLine width).bytes.length = width + 1 := by
  have ascii : encodeChar 'a' = [97] := by decide
  simp [Line.bytes,plainLine,encode,List.flatMap_replicate,ascii]

-- A burst between two polls: 65536 lines of 4096 bytes fill the log exactly.
def burst (line : Line) : List Action :=
  [.reopen,.append line,.poll] ++ List.replicate 65535 (.append line) ++ [.rotate,.reopen,.poll]

section Burst
variable {line : Line} (wide : line.bytes.length = 4096)
include wide

theorem appends_run (count : Nat) {world : World} {written : Nat} (logging : world.phase = .logging written)
    (room : written + count*4096 < maxLogBytes) (present : (world.dir 0).isSome = true) :
    ∃ next, Runs Step world (List.replicate count (.append line)) next ∧
      next.phase = .logging (written + count*4096) ∧ (next.dir 0).isSome = true ∧ next.offset = world.offset ∧
      next.delivered = world.delivered ∧ next.written = world.written ++ List.replicate count line := by
  induction count with
  | zero => exact ⟨world,.nil,by simpa using logging,present,rfl,rfl,by simp⟩
  | succ count ih =>
    have fewer : written + count*4096 + 4096 < maxLogBytes := by
      rwa [Nat.succ_mul,← Nat.add_assoc] at room
    obtain ⟨middle,path,phase,_,offset,delivered,lines⟩ := ih ((Nat.le_add_right _ _).trans_lt fewer)
    refine ⟨middle.append (written + count*4096) line,?_,?_,?_,offset,delivered,?_⟩
    · rw [List.replicate_succ']
      exact .snoc path (.append phase)
    · simp only [World.append,afterAppend,wide]
      rw [if_neg (Nat.not_le_of_lt fewer),Nat.succ_mul,← Nat.add_assoc]
    · simp [World.append,appendLine]
    · simp [World.append,lines,List.replicate_succ',List.append_assoc]

theorem first_poll : readNewLines none (some line.bytes) 0 = (.ok [line.text],4096) := by
  have short : line.bytes.length ≤ maxTailChunkBytes := by
    rw [wide]
    decide
  have polled := line_polled short []
  rw [wide] at polled
  exact polled

theorem first_line_polled : ∃ world, Runs Step .initial [.reopen,.append line,.poll] world ∧
    world.phase = .logging 4096 ∧ world.dir 0 = some line.bytes ∧ world.offset = 4096 ∧
    world.delivered = [line.text] ∧ world.written = [line] := by
  have opened : World.initial.reopen.dir 0 = some [] := rfl
  have present : (World.initial.reopen.append 0 line).dir 0 = some line.bytes := by
    simp [World.append,appendLine,opened]
  have start : (World.initial.reopen.append 0 line).offset = 0 := rfl
  refine ⟨(World.initial.reopen.append 0 line).poll,?_,?_,present,?_,?_,rfl⟩
  · exact ((Runs.one (.reopen rfl)).append (Runs.one (.append rfl))).append (Runs.one .poll)
  · simp only [World.poll,World.append,afterAppend,wide]
    rw [if_neg (by decide)]
  · simp only [World.poll]
    rw [present,start,first_poll wide]
  · simp only [World.poll]
    rw [present,start,first_poll wide]
    rfl

-- The file is full, rotated away and opened again before the next poll, which
-- finds an empty file, forgets its offset and is up to date.
theorem burst_run : ∃ world, Runs Step .initial (burst line) world ∧ world.CaughtUp ∧
    world.delivered = [line.text] ∧ world.written = List.replicate 65536 line := by
  obtain ⟨first,begun,phase,content,offset,delivered,written⟩ := first_line_polled wide
  obtain ⟨nearly,filling,almost,_,position,still,lines⟩ :=
    appends_run wide 65534 phase (by decide) (by rw [content]; rfl)
  let filled := nearly.append (4096 + 65534*4096) line
  have full : filled.phase = .full := by
    simp only [filled,World.append,afterAppend,wide]
    rw [if_pos (by decide)]
  have kept : filled.rotate.reopen.offset = 4096 := position.trans offset
  have present : filled.dir 0 = some ((nearly.dir 0).getD [] ++ line.bytes) := by
    simp [filled,World.append,appendLine]
  have gone : filled.rotate.dir 0 = none := rotateLog_current filled.dir present
  have fresh : filled.rotate.reopen.dir 0 = some [] := by simp [World.reopen,openLog,gone]
  have reset : readNewLines none (some []) 4096 = (.ok [],0) := rfl
  refine ⟨filled.rotate.reopen.poll,?_,⟨?_,[],fresh,?_⟩,?_,?_⟩
  · have split : burst line = [.reopen,.append line,.poll] ++ (List.replicate 65534 (.append line) ++
        [.append line]) ++ [.rotate,.reopen,.poll] := by
      rw [burst,List.replicate_succ']
    rw [split]
    exact (begun.append (.snoc filling (.append almost))).append
      (((Runs.one (.rotate full)).append (Runs.one (.reopen rfl))).append (Runs.one .poll))
  · simp [World.poll,fresh]
  · simp only [World.poll]
    rw [fresh,kept,reset]
    rfl
  · simp only [World.poll]
    rw [fresh,kept,reset]
    exact (List.append_nil _).trans (still.trans delivered)
  · have all : nearly.written ++ [line] = List.replicate 65536 line := by
      rw [lines,written,List.append_assoc,← List.replicate_succ',List.singleton_append,← List.replicate_succ]
    exact all

end Burst

theorem burst_loses_lines : ∃ world, Runs Step .initial (burst (plainLine 4095)) world ∧ world.CaughtUp ∧
    world.delivered ≠ world.written.map Line.text := by
  obtain ⟨world,path,caught,delivered,written⟩ := burst_run (plainLine_length 4095)
  refine ⟨world,path,caught,?_⟩
  intro same
  have lengths := congrArg List.length same
  rw [delivered,written,List.length_map,List.length_replicate] at lengths
  exact absurd lengths (by decide)

end AegisHoneypot.LogRotation
