import AegisHoneypot.RecordingLimit
import AegisHoneypot.ReplayFidelity
import AegisHoneypot.Library.BufferedFile

-- The recorder writes through a buffer that is flushed once for every packet.
-- What is left of a recording when the gateway is killed, on a disk that takes
-- every write.
namespace AegisHoneypot.RecordingDurability
open SessionSilence (plainPlatform)
open PacketBoundaries (nextLine)
open RecordingLimit (asFile_append)
open Utf8Text Utf16Text GatewayHost PayloadFetch SessionHandler SessionInput SessionRecording ReplayFidelity BufferedFile Transition

def openCalls (timestamp : Nat) (sessionId : Text) : List Call :=
  [.write (encode (castHeader timestamp sessionId ++ ['\n'])),.flush]

-- The calls `write_record` makes on the writer.
def recordCall (clock : Nat → Text) (kind : CastStream) (data : Text) (recorder : SessionRecorder) : List Call :=
  if recorder.truncated then [] else
  let line := encode (castLine (clock 0) kind data ++ ['\n'])
  if maxCastBytes < recorder.written+line.length then
    [.write (encode (castLine (clock 1) .output truncationMarker)),.write [newline],.flush]
  else [.write line]

def recordCalls (clock : Nat → Nat → Text) : Nat → List Effect → SessionRecorder → List Call
  | _,[],_ => []
  | n,effect :: rest,recorder => match effect with
    | .recorded kind data =>
      recordCall (clock n) kind data recorder ++ recordCalls clock (n+1) rest (writeRecord (clock n) kind data recorder)
    | .recorderFlushed => .flush :: recordCalls clock n rest recorder
    | .recorderClosed => .flush :: recordCalls clock n rest recorder
    | _ => recordCalls clock n rest recorder

def sessionCalls (cast : CastIo) (sessionId : Text) (log : List Effect) : List Call :=
  openCalls cast.timestamp sessionId ++ recordCalls cast.clock 0 log (openRecorder cast.timestamp sessionId)

theorem recordCall_bytes (clock : Nat → Text) (kind : CastStream) (data : Text) (recorder : SessionRecorder) :
    (writeRecord clock kind data recorder).file = recorder.file ++ bytesOf (recordCall clock kind data recorder) := by
  unfold writeRecord recordCall
  split
  · simp [bytesOf]
  · dsimp only
    split
    · have end_ : encode ['\n'] = [newline] := rfl
      simp [bytesOf,Call.bytes,encode_append,end_]
    · simp [bytesOf,Call.bytes]

theorem recordCalls_bytes (clock : Nat → Nat → Text) (n : Nat) (log : List Effect) (recorder : SessionRecorder) :
    (recordAll clock n (recordings log) recorder).file = recorder.file ++ bytesOf (recordCalls clock n log recorder) := by
  induction log generalizing n recorder with
  | nil => simp [recordCalls,bytesOf,recordings,recordAll]
  | cons effect rest ih =>
    cases effect with
    | recorded kind data =>
      have later := ih (n+1) (writeRecord (clock n) kind data recorder)
      rw [recordCall_bytes,List.append_assoc] at later
      simpa [recordings,recordCalls,bytesOf,recordAll] using later
    | _ => simpa [recordings,recordCalls,bytesOf,Call.bytes] using ih n recorder

theorem sessionCalls_bytes (cast : CastIo) (sessionId : Text) (log : List Effect) :
    bytesOf (sessionCalls cast sessionId log) = (recording cast sessionId log).file := by
  have all := recordCalls_bytes cast.clock 0 log (openRecorder cast.timestamp sessionId)
  rw [recording,all,sessionCalls,bytesOf,List.flatMap_append,← bytesOf,← bytesOf]
  simp [openCalls,bytesOf,Call.bytes,openRecorder]

theorem sessionCalls_flushed (cast : CastIo) (sessionId : Text) (log : List Effect) :
    (sessionCalls cast sessionId (log ++ [.recorderFlushed])).getLast? = some .flush := by
  have ends : ∀ n recorder, ∃ front, recordCalls cast.clock n (log ++ [.recorderFlushed]) recorder = front ++ [.flush] := by
    induction log with
    | nil => exact fun _ _ => ⟨[],rfl⟩
    | cons effect rest ih =>
      intro n recorder
      cases effect with
      | recorded kind data =>
        obtain ⟨front,same⟩ := ih (n+1) (writeRecord (cast.clock n) kind data recorder)
        exact ⟨recordCall (cast.clock n) kind data recorder ++ front,by simp [recordCalls,same]⟩
      | recorderFlushed =>
        obtain ⟨front,same⟩ := ih n recorder
        exact ⟨.flush :: front,by simp [recordCalls,same]⟩
      | recorderClosed =>
        obtain ⟨front,same⟩ := ih n recorder
        exact ⟨.flush :: front,by simp [recordCalls,same]⟩
      | _ => exact ih n recorder
  obtain ⟨front,same⟩ := ends 0 (openRecorder cast.timestamp sessionId)
  rw [sessionCalls,same,← List.append_assoc,List.getLast?_concat]

-- A line of a recording that was cut is no line.
theorem parseLine_some (read : parseLine line = some parsed) :
    line.getLast? = some ']' ∧ ∀ more, more ≠ [] → parseLine (line ++ more) = none := by
  unfold parseLine at read
  obtain ⟨afterOpen,open_,read⟩ := Option.bind_eq_some_iff.mp read
  obtain ⟨afterTime,time,read⟩ := Option.bind_eq_some_iff.mp read
  obtain ⟨afterFirst,first,read⟩ := Option.bind_eq_some_iff.mp read
  obtain ⟨afterQuote,quote,read⟩ := Option.bind_eq_some_iff.mp read
  obtain ⟨⟨kind,afterKind⟩,kindRead,read⟩ := Option.bind_eq_some_iff.mp read
  obtain ⟨afterSecond,second,read⟩ := Option.bind_eq_some_iff.mp read
  obtain ⟨afterMark,mark,read⟩ := Option.bind_eq_some_iff.mp read
  obtain ⟨⟨data,last⟩,dataRead,read⟩ := Option.bind_eq_some_iff.mp read
  simp only [Option.ite_none_right_eq_some] at read
  obtain ⟨rfl,_⟩ := read
  obtain ⟨inOpen,openMore⟩ := Json.readMark_some open_
  obtain ⟨inFirst,firstMore⟩ := Json.readMark_some first
  obtain ⟨inTime,timeMore⟩ := Json.readNumber_some time (by rintro rfl; cases first)
  obtain ⟨inQuote,quoteMore⟩ := Json.readMark_some quote
  obtain ⟨inKind,kindMore⟩ := Json.readString_some kindRead
  obtain ⟨inSecond,secondMore⟩ := Json.readMark_some second
  obtain ⟨inMark,markMore⟩ := Json.readMark_some mark
  obtain ⟨inData,dataMore⟩ := Json.readString_some dataRead
  have whole : [']'] <:+ line :=
    inData.trans (inMark.trans (inSecond.trans (inKind.trans (inQuote.trans (inFirst.trans (inTime.trans inOpen))))))
  constructor
  · obtain ⟨front,rfl⟩ := whole
    exact List.getLast?_concat
  · intro more some_
    unfold parseLine
    simp only [openMore,timeMore,firstMore,quoteMore,kindMore,secondMore,markMore,dataMore,Option.bind_some]
    rw [if_neg (by simpa using some_)]

-- A text of lines, cut anywhere: whole lines and a part of the next.
theorem asFile_cut (lines : List Text) (cut : front <+: asFile lines) : ∃ done part, done <+: lines ∧
    front = asFile done ++ part ∧ (part = [] ∨ ∃ line more, lines = done ++ line :: more ∧ part <+: line) := by
  induction lines generalizing front with
  | nil => exact ⟨[],[],List.nil_prefix,List.prefix_nil.mp cut,.inl rfl⟩
  | cons line rest ih =>
    have split : asFile (line :: rest) = (line ++ ['\n']) ++ asFile rest := rfl
    rw [split] at cut
    rcases Nat.lt_or_ge front.length (line ++ ['\n']).length with short | long
    · rw [List.append_assoc] at cut
      have inside : front <+: line := by
        refine List.prefix_of_prefix_length_le cut (List.prefix_append _ _) ?_
        rw [List.length_append,List.length_singleton] at short
        exact Nat.lt_succ_iff.mp short
      exact ⟨[],front,List.nil_prefix,rfl,.inr ⟨line,rest,rfl,inside⟩⟩
    · obtain ⟨after,rfl⟩ := List.prefix_of_prefix_length_le (List.prefix_append _ _) cut long
      obtain ⟨done,part,inside,rfl,ends⟩ := ih ((List.prefix_append_right_inj _).mp cut)
      refine ⟨line :: done,part,List.cons_prefix_cons.mpr ⟨rfl,inside⟩,?_,?_⟩
      · rw [← List.append_assoc]
        rfl
      · rcases ends with none | ⟨next,more,rfl,within⟩
        · exact .inl none
        · exact .inr ⟨next,more,rfl,within⟩

-- Lines that are there in full are among the whole ones.
theorem asFile_done {lines : List Text} (inside : whole <+: lines) (held : asFile whole <+: asFile done ++ part) (cut : done <+: lines)
    (ends : part = [] ∨ ∃ line more, lines = done ++ line :: more ∧ part <+: line) : whole.length ≤ done.length := by
  rcases List.prefix_or_prefix_of_prefix inside cut with shorter | ⟨more,rfl⟩
  · exact shorter.length_le
  · cases more with
    | nil => simp
    | cons first more =>
      rw [asFile_append,List.prefix_append_right_inj] at held
      have size := held.length_le
      have line : (asFile (first :: more)).length = first.length+1+(asFile more).length := by
        simp only [asFile,List.flatMap_cons,List.length_append,List.length_singleton]
      rw [line] at size
      rcases ends with rfl | ⟨next,tail,rfl,within⟩
      · rw [List.length_nil] at size
        omega
      · rw [List.prefix_append_right_inj] at inside
        obtain ⟨rfl,_⟩ := List.cons_prefix_cons.mp inside
        have short := within.length_le
        omega

theorem split_part (lines : List Text) (single : ∀ line ∈ lines, '\n' ∉ line) (part : Text) (one : '\n' ∉ part) :
    Text.split '\n' (asFile lines ++ part) = lines ++ [part] := by
  induction lines with
  | nil => exact List.splitOn_eq_singleton one
  | cons line rest ih =>
    rw [List.forall_mem_cons] at single
    obtain ⟨first,later⟩ := single
    simp only [asFile,Text.split,List.flatMap_cons,List.append_assoc,List.singleton_append] at ih ⊢
    simp only [List.cons_append]
    rw [List.splitOn_append_cons_self_of_not_mem first,ih later]

-- The part of a line behind the last line feed adds nothing, unless it is the
-- line itself.
theorem part_unread {line junk : Text} (within : part <+: line) (whole : parseLine line = some parsed)
    (lossy : junk = [] ∨ junk = [replacement]) (cut : part ≠ line ∨ junk ≠ []) : parseLine (part ++ junk) = none := by
  cases read : parseLine (part ++ junk) with
  | none => rfl
  | some other =>
    obtain ⟨last,alone⟩ := parseLine_some read
    rcases lossy with rfl | rfl
    · obtain ⟨more,rfl⟩ := within
      have some_ : more ≠ [] := by
        rintro rfl
        simp at cut
      have none := alone more some_
      rw [List.append_nil] at none
      cases whole.symm.trans none
    · rw [List.getLast?_concat] at last
      cases last

-- The lines of a file that was cut: the whole ones, and the rest of the last one
-- where it is not blank.
theorem rawLines_cut {lines done : List Text} (single : ∀ line ∈ lines, '\n' ∉ line) (shown : ∀ line ∈ lines, line.all isSpace = false)
    (inside : done <+: lines) (ends : part = [] ∨ ∃ line more, lines = done ++ line :: more ∧ part <+: line)
    (lossy : junk = [] ∨ junk = [replacement]) :
    rawLines (asFile done ++ part ++ junk) = done ++ [part ++ junk].filter (fun line => !line.all isSpace) := by
  have inPart : '\n' ∉ part := by
    rcases ends with rfl | ⟨line,more,same,within⟩
    · simp
    · exact fun held => single line (by rw [same]; simp) (within.subset held)
  have inJunk : '\n' ∉ junk := by
    rcases lossy with rfl | rfl
    · simp
    · decide
  have one : '\n' ∉ part ++ junk := by simp [inPart,inJunk]
  have kept : done.filter (fun line => !line.all isSpace) = done :=
    List.filter_eq_self.mpr (fun line member => by rw [shown line (inside.subset member)]; rfl)
  rw [rawLines,List.append_assoc,split_part done (fun line member => single line (inside.subset member)) _ one,
    List.filter_append,kept]

theorem cut_unread (unread : parseLine line = none) :
    ([line].filter (fun line => !line.all isSpace)).filterMap (fun line => (parseLine line).bind visual) = [] := by
  rw [List.filterMap_eq_nil_iff]
  intro other member
  rw [List.mem_singleton.mp (List.mem_of_mem_filter member),unread]
  rfl

-- A recording that was cut reads back as its first lines, all of those that are
-- there in full among them.
theorem parseCast_cut (head : Text) (lines : List Text) (single : ∀ line ∈ head :: lines, '\n' ∉ line)
    (shown : ∀ line ∈ head :: lines, line.all isSpace = false) (read : ∀ line ∈ lines, ∃ parsed, parseLine line = some parsed)
    (cut : front <+: asFile (head :: lines)) (lossy : junk = [] ∨ junk = [replacement]) :
    ∃ k, k ≤ lines.length ∧ parseCast (front ++ junk) = (lines.take k).filterMap (fun line => (parseLine line).bind visual) ∧
      ∀ t, t <+: lines → asFile (head :: t) <+: front → t.length ≤ k := by
  obtain ⟨done,part,inside,rfl,ends⟩ := asFile_cut _ cut
  have rows := rawLines_cut single shown inside ends lossy
  cases done with
  | nil =>
    refine ⟨0,Nat.zero_le _,?_,?_⟩
    · rw [parseCast,rows,List.nil_append,List.drop_eq_nil_of_le]
      · rfl
      · exact List.length_filter_le _ _
    · intro t inner held
      have length := asFile_done (List.cons_prefix_cons.mpr ⟨rfl,inner⟩) held inside ends
      simp at length
  | cons first rest =>
    obtain ⟨rfl,within⟩ := List.cons_prefix_cons.mp inside
    have full : ∀ t, t <+: lines → asFile (first :: t) <+: asFile (first :: rest) ++ part → t.length ≤ rest.length := by
      intro t inner held
      have length := asFile_done (List.cons_prefix_cons.mpr ⟨rfl,inner⟩) held inside ends
      simpa using length
    have start : rest = lines.take rest.length := List.prefix_iff_eq_take.mp within
    by_cases last : ∃ line more, lines = rest ++ line :: more ∧ part = line ∧ junk = []
    · obtain ⟨line,more,rfl,rfl,rfl⟩ := last
      have visible := shown part (by simp)
      refine ⟨rest.length+1,by simp,?_,fun t inner held => (full t inner held).trans (Nat.le_succ _)⟩
      rw [parseCast,rows]
      simp only [List.append_nil,List.filter_cons,visible,Bool.not_false,if_true,List.filter_nil,List.cons_append,List.drop_succ_cons,
        List.drop_zero]
      rw [List.take_append,List.take_of_length_le (Nat.le_succ _),Nat.add_sub_cancel_left,List.take_succ_cons,List.take_zero]
    · have unread : parseLine (part ++ junk) = none := by
        rcases ends with rfl | ⟨line,more,same,inner⟩
        · rcases lossy with rfl | rfl
          · rfl
          · rfl
        · rw [List.cons_append,List.cons.injEq] at same
          obtain ⟨parsed,whole⟩ := read line (by rw [same.2]; simp)
          refine part_unread inner whole lossy ?_
          by_contra both
          rw [not_or,not_not,not_not] at both
          exact last ⟨line,more,same.2,both⟩
      refine ⟨rest.length,within.length_le,?_,full⟩
      rw [parseCast,rows,← start,List.cons_append,List.drop_succ_cons,List.drop_zero,List.filterMap_append,cut_unread unread,
        List.append_nil]

-- A line of a recording behind its header.
structure Row where
  elapsed : Text
  kind : CastStream
  data : Text

def Row.line (row : Row) : Text := castLine row.elapsed row.kind row.data

def Row.record (row : Row) : CastStream × Text := (row.kind,row.data)

-- The lines that `write_record` leaves in the file: the records below the cap,
-- and the marker in the place of the first one that does not fit.
def rows (clock : Nat → Nat → Text) : Nat → List (CastStream × Text) → SessionRecorder → List Row
  | _,[],_ => []
  | n,(kind,data) :: rest,recorder =>
    if recorder.truncated then []
    else if maxCastBytes < recorder.written+(encode (castLine (clock n 0) kind data ++ ['\n'])).length then
      [⟨clock n 1,.output,truncationMarker⟩]
    else ⟨clock n 0,kind,data⟩ :: rows clock (n+1) rest (writeRecord (clock n) kind data recorder)

def sessionRows (cast : CastIo) (sessionId : Text) (log : List Effect) : List Row :=
  rows cast.clock 0 (recordings log) (openRecorder cast.timestamp sessionId)

section Rows
variable (clock : Nat → Nat → Text) {kind : CastStream} {data : Text} {recorder : SessionRecorder}

theorem writeRecord_exceeds (clock : Nat → Text) (kind : CastStream) (data : Text) (going : recorder.truncated = false)
    (exceeds : maxCastBytes < recorder.written+(encode (castLine (clock 0) kind data ++ ['\n'])).length) :
    writeRecord clock kind data recorder = {recorder with
      truncated := true,file := recorder.file ++ encode (castLine (clock 1) .output truncationMarker ++ ['\n'])} := by
  rw [writeRecord,if_neg (by simp [going])]
  exact if_pos exceeds

theorem writeRecord_fits (clock : Nat → Text) (kind : CastStream) (data : Text) (going : recorder.truncated = false)
    (fits : ¬ maxCastBytes < recorder.written+(encode (castLine (clock 0) kind data ++ ['\n'])).length) :
    writeRecord clock kind data recorder = {recorder with
      file := recorder.file ++ encode (castLine (clock 0) kind data ++ ['\n'])
      written := recorder.written+(encode (castLine (clock 0) kind data ++ ['\n'])).length} := by
  rw [writeRecord,if_neg (by simp [going])]
  exact if_neg fits

theorem recordAll_cut (n : Nat) (records : List (CastStream × Text)) (cut : recorder.truncated = true) :
    recordAll clock n records recorder = recorder := by
  induction records generalizing n with
  | nil => rfl
  | cons record rest ih =>
    obtain ⟨kind,data⟩ := record
    rw [recordAll,show writeRecord (clock n) kind data recorder = recorder from if_pos cut,ih]

theorem rows_cut (n : Nat) (records : List (CastStream × Text)) (cut : recorder.truncated = true) :
    rows clock n records recorder = [] := by
  cases records with
  | nil => rfl
  | cons record rest => exact if_pos cut

theorem fits_going (clock : Nat → Text) (kind : CastStream) (data : Text) (going : recorder.truncated = false)
    (fits : ¬ maxCastBytes < recorder.written+(encode (castLine (clock 0) kind data ++ ['\n'])).length) :
    (writeRecord clock kind data recorder).truncated = false := by
  rw [writeRecord_fits clock kind data going fits]
  exact going

-- What holds of a recorder that is still going: the next record does not fit, or
-- the recorder goes on behind it.
theorem rows_induction {P : ∀ (_ : Nat) (_ : List (CastStream × Text)) (recorder : SessionRecorder), recorder.truncated = false → Prop}
    (nil : ∀ n recorder going, P n [] recorder going)
    (exceeds : ∀ n kind data rest recorder going,
      maxCastBytes < recorder.written+(encode (castLine (clock n 0) kind data ++ ['\n'])).length →
      P n ((kind,data) :: rest) recorder going)
    (fits : ∀ n kind data rest recorder going
      (fits : ¬ maxCastBytes < recorder.written+(encode (castLine (clock n 0) kind data ++ ['\n'])).length),
      P (n+1) rest (writeRecord (clock n) kind data recorder) (fits_going (clock n) kind data going fits) →
      P n ((kind,data) :: rest) recorder going)
    (n : Nat) (records : List (CastStream × Text)) (recorder : SessionRecorder) (going : recorder.truncated = false) :
    P n records recorder going := by
  induction records generalizing n recorder with
  | nil => exact nil n recorder going
  | cons record rest ih =>
    obtain ⟨kind,data⟩ := record
    by_cases large : maxCastBytes < recorder.written+(encode (castLine (clock n 0) kind data ++ ['\n'])).length
    · exact exceeds n kind data rest recorder going large
    · exact fits n kind data rest recorder going large (ih (n+1) _ _)

theorem rows_exceeds (going : recorder.truncated = false)
    (exceeds : maxCastBytes < recorder.written+(encode (castLine (clock n 0) kind data ++ ['\n'])).length) :
    rows clock n ((kind,data) :: rest) recorder = [⟨clock n 1,.output,truncationMarker⟩] := by
  rw [rows,if_neg (by simp [going]),if_pos exceeds]

theorem rows_fits (going : recorder.truncated = false)
    (fits : ¬ maxCastBytes < recorder.written+(encode (castLine (clock n 0) kind data ++ ['\n'])).length) :
    rows clock n ((kind,data) :: rest) recorder =
      ⟨clock n 0,kind,data⟩ :: rows clock (n+1) rest (writeRecord (clock n) kind data recorder) := by
  rw [rows,if_neg (by simp [going]),if_neg fits]

theorem rows_file (n : Nat) (records : List (CastStream × Text)) (recorder : SessionRecorder) (going : recorder.truncated = false) :
    (recordAll clock n records recorder).file = recorder.file ++ encode (asFile ((rows clock n records recorder).map Row.line)) := by
  induction n, records, recorder, going using rows_induction clock with
  | nil n recorder => exact (List.append_nil _).symm
  | exceeds n kind data rest recorder going exceeds =>
    rw [recordAll,rows_exceeds clock going exceeds,writeRecord_exceeds _ _ _ going exceeds,recordAll_cut _ _ _ rfl]
    simp [asFile,Row.line]
  | fits n kind data rest recorder going fits ih =>
    rw [recordAll,ih,rows_fits clock going fits,writeRecord_fits _ _ _ going fits,List.append_assoc,← encode_append]
    simp [asFile,Row.line]

theorem rows_append (n : Nat) (records later : List (CastStream × Text)) (recorder : SessionRecorder)
    (going : recorder.truncated = false) : rows clock n (records ++ later) recorder =
      rows clock n records recorder ++ rows clock (n+records.length) later (recordAll clock n records recorder) := by
  induction n, records, recorder, going using rows_induction clock with
  | nil => rfl
  | exceeds n kind data rest recorder going exceeds =>
    rw [List.cons_append,rows_exceeds clock going exceeds,rows_exceeds clock going exceeds,recordAll,
      writeRecord_exceeds _ _ _ going exceeds,recordAll_cut _ _ _ rfl,rows_cut _ _ _ rfl,List.append_nil]
  | fits n kind data rest recorder going fits ih =>
    rw [List.cons_append,rows_fits clock going fits,rows_fits clock going fits,recordAll,ih,List.cons_append,List.length_cons,
      show n+1+rest.length = n+(rest.length+1) by omega]

theorem rows_records (n : Nat) (records : List (CastStream × Text)) (recorder : SessionRecorder)
    (going : recorder.truncated = false) : ∃ held, (rows clock n records recorder).map Row.record = records.take held ++
      (if (recordAll clock n records recorder).truncated then [(.output,truncationMarker)] else []) ∧
      ((recordAll clock n records recorder).truncated = false → held = records.length) := by
  induction n, records, recorder, going using rows_induction clock with
  | nil n recorder going =>
    refine ⟨0,?_,fun _ => rfl⟩
    rw [recordAll,going]
    rfl
  | exceeds n kind data rest recorder going exceeds =>
    refine ⟨0,?_,?_⟩
    · rw [recordAll,rows_exceeds clock going exceeds,writeRecord_exceeds _ _ _ going exceeds,recordAll_cut _ _ _ rfl]
      rfl
    · rw [recordAll,writeRecord_exceeds _ _ _ going exceeds,recordAll_cut _ _ _ rfl]
      intro whole
      cases whole
  | fits n kind data rest recorder going fits ih =>
    obtain ⟨held,same,all⟩ := ih
    refine ⟨held+1,?_,fun whole => ?_⟩
    · rw [rows_fits clock going fits,List.map_cons,same,recordAll,List.take_succ_cons]
      rfl
    · rw [all whole,List.length_cons]

-- The rows but for the marker end below the cap.
theorem rows_within (n : Nat) (records : List (CastStream × Text)) (recorder : SessionRecorder) (going : recorder.truncated = false)
    (inside : first <+: rows clock n records recorder)
    (below : first = rows clock n records recorder → (recordAll clock n records recorder).truncated = false) (some_ : first ≠ []) :
    recorder.written+(encode (asFile (first.map Row.line))).length ≤ maxCastBytes := by
  induction n, records, recorder, going using rows_induction clock generalizing first with
  | nil n recorder => exact absurd (List.prefix_nil.mp inside) some_
  | exceeds n kind data rest recorder going exceeds =>
    rw [rows_exceeds clock going exceeds] at inside below
    rw [recordAll,writeRecord_exceeds _ _ _ going exceeds,recordAll_cut _ _ _ rfl] at below
    obtain ⟨row,more,rfl⟩ := List.exists_cons_of_ne_nil some_
    obtain ⟨rfl,nothing⟩ := List.cons_prefix_cons.mp inside
    cases below (congrArg (_ :: ·) (List.prefix_nil.mp nothing))
  | fits n kind data rest recorder going fits ih =>
    rw [rows_fits clock going fits] at inside below
    obtain ⟨row,more,rfl⟩ := List.exists_cons_of_ne_nil some_
    obtain ⟨rfl,after⟩ := List.cons_prefix_cons.mp inside
    have line : asFile (List.map Row.line (⟨clock n 0,kind,data⟩ :: more)) =
        (castLine (clock n 0) kind data ++ ['\n']) ++ asFile (more.map Row.line) := rfl
    rw [line,encode_append,List.length_append]
    by_cases last : more = []
    · rw [last]
      simp only [List.map_nil,asFile,List.flatMap_nil]
      exact Nat.le_of_not_lt fits
    · have later := ih after (fun same => below (congrArg (_ :: ·) same)) last
      rw [writeRecord_fits _ _ _ going fits] at later
      dsimp only at later
      omega

theorem rows_ticks (ticks : Ticks clock) (n : Nat) (records : List (CastStream × Text)) (recorder : SessionRecorder)
    (going : recorder.truncated = false) : ∀ row ∈ rows clock n records recorder, Json.isNumber row.elapsed = true := by
  induction n, records, recorder, going using rows_induction clock with
  | nil n recorder => nofun
  | exceeds n kind data rest recorder going exceeds =>
    rw [rows_exceeds clock going exceeds]
    exact List.forall_mem_singleton.mpr (ticks n 1)
  | fits n kind data rest recorder going fits ih =>
    rw [rows_fits clock going fits]
    exact List.forall_mem_cons.mpr ⟨ticks n 0,ih⟩

end Rows

theorem rows_visual (list : List Row) (ticks : ∀ row ∈ list, Json.isNumber row.elapsed = true) :
    (list.map Row.line).filterMap (fun line => (parseLine line).bind visual) = (recordedOutput (list.map Row.record)).map ofText := by
  induction list with
  | nil => rfl
  | cons row rest ih =>
    obtain ⟨elapsed,kind,data⟩ := row
    rw [List.forall_mem_cons] at ticks
    simp only [List.map_cons,Row.line,Row.record,List.filterMap_cons,parseLine_castLine kind data ticks.1,Option.bind_some] at ih ⊢
    rw [ih ticks.2]
    cases kind with
    | output => rfl
    | input => rfl

theorem recording_file (cast : CastIo) (sessionId : Text) (log : List Effect) : (recording cast sessionId log).file =
    encode (asFile (castHeader cast.timestamp sessionId :: (sessionRows cast sessionId log).map Row.line)) := by
  rw [recording,rows_file cast.clock 0 (recordings log) _ rfl,openRecorder,← encode_append]
  rfl

-- The rows are the first records, all of them unless the recording is cut off.
theorem sessionRows_records (cast : CastIo) (sessionId : Text) (log : List Effect) :
    ∃ held, (sessionRows cast sessionId log).map Row.record = (recordings log).take held ++
      (if (recording cast sessionId log).truncated then [(.output,truncationMarker)] else []) ∧
      ((recording cast sessionId log).truncated = false → held = (recordings log).length) :=
  rows_records cast.clock 0 (recordings log) _ rfl

theorem sessionRows_append (cast : CastIo) (sessionId : Text) (log later : List Effect) :
    sessionRows cast sessionId log <+: sessionRows cast sessionId (log ++ later) := by
  rw [sessionRows,sessionRows,recordings_append,rows_append cast.clock 0 _ _ _ rfl]
  exact List.prefix_append _ _

-- The rows that are on the disk whatever happens: all but a marker.
def settled (cast : CastIo) (sessionId : Text) (log : List Effect) : List Row :=
  (sessionRows cast sessionId log).take
    ((sessionRows cast sessionId log).length - (recording cast sessionId log).truncated.toNat)

theorem settled_served (cast : CastIo) (sessionId : Text) (log : List Effect) (some_ : settled cast sessionId log ≠ [])
    (flushed : (recording cast sessionId log).file <+: disk) :
    encode (asFile (castHeader cast.timestamp sessionId :: (settled cast sessionId log).map Row.line)) <+:
      disk.take maxCastResponseBytes := by
  have inside : settled cast sessionId log <+: sessionRows cast sessionId log := List.take_prefix _ _
  have below : settled cast sessionId log = sessionRows cast sessionId log → (recording cast sessionId log).truncated = false := by
    intro same
    have lengths := congrArg List.length same
    have pos := List.length_pos_of_ne_nil some_
    rw [same] at pos
    rw [settled,List.length_take] at lengths
    cases cut : (recording cast sessionId log).truncated with
    | false => rfl
    | true =>
      rw [cut,Bool.toNat_true] at lengths
      omega
  have within := rows_within cast.clock 0 (recordings log) (openRecorder cast.timestamp sessionId) rfl inside below some_
  have written : (openRecorder cast.timestamp sessionId).written = (encode (castHeader cast.timestamp sessionId ++ ['\n'])).length := rfl
  have parts : asFile (castHeader cast.timestamp sessionId :: (settled cast sessionId log).map Row.line) =
      (castHeader cast.timestamp sessionId ++ ['\n']) ++ asFile ((settled cast sessionId log).map Row.line) := rfl
  rw [List.prefix_take_iff]
  constructor
  · refine List.IsPrefix.trans ?_ flushed
    obtain ⟨more,same⟩ := inside
    rw [recording_file,← same,parts,encode_append]
    simp only [asFile,List.map_append,List.flatMap_cons,List.flatMap_append,encode_append,← List.append_assoc]
    exact List.prefix_append _ _
  · rw [parts,encode_append,List.length_append,← written]
    exact within

theorem cut_replays (cast : CastIo) (sessionId : Text) (log later : List Effect)
    (flushed : (recording cast sessionId log).file <+: disk) (cut : disk <+: (recording cast sessionId (log ++ later)).file) :
    ∃ k, (sessionRows cast sessionId log).length ≤ k+(recording cast sessionId log).truncated.toNat ∧
      k ≤ (sessionRows cast sessionId (log ++ later)).length ∧ parseCast (sessionCast disk) =
        (recordedOutput (((sessionRows cast sessionId (log ++ later)).take k).map Row.record)).map ofText := by
  have within := (List.take_prefix maxCastResponseBytes disk).trans cut
  rw [recording_file] at within
  obtain ⟨front,junk,inside,decoded,lossy,longest⟩ := fromUtf8Lossy_cut _ within
  have ticks : ∀ row ∈ sessionRows cast sessionId (log ++ later), Json.isNumber row.elapsed = true :=
    rows_ticks cast.clock cast.ticks 0 _ _ rfl
  have line : ∀ text ∈ (sessionRows cast sessionId (log ++ later)).map Row.line,
      ('\n' ∉ text ∧ text.all isSpace = false) ∧ ∃ parsed, parseLine text = some parsed := by
    rw [List.forall_mem_map]
    intro row member
    refine ⟨⟨castLine_line _ _ (ticks row member),?_⟩,_,parseLine_castLine _ _ (ticks row member)⟩
    rw [Row.line,castLine,List.all_cons]
    rfl
  obtain ⟨k,bound,read,full⟩ := parseCast_cut (castHeader cast.timestamp sessionId) _
    (List.forall_mem_cons.mpr ⟨castHeader_line _ _,fun text member => (line text member).1.1⟩)
    (List.forall_mem_cons.mpr ⟨castHeader_shown _ _,fun text member => (line text member).1.2⟩)
    (fun text member => (line text member).2) inside lossy
  rw [List.length_map] at bound
  refine ⟨k,?_,bound,?_⟩
  · have size : (settled cast sessionId log).length =
        (sessionRows cast sessionId log).length - (recording cast sessionId log).truncated.toNat := by
      rw [settled,List.length_take,Nat.min_eq_left (Nat.sub_le _ _)]
    rcases Decidable.em (settled cast sessionId log = []) with none | some_
    · rw [none,List.length_nil] at size
      omega
    · have among : settled cast sessionId log <+: sessionRows cast sessionId (log ++ later) :=
        (List.take_prefix _ _).trans (sessionRows_append cast sessionId log later)
      have kept := full _ (among.map Row.line) (longest _ ?_ (settled_served cast sessionId log some_ flushed))
      · rw [List.length_map] at kept
        omega
      · obtain ⟨more,same⟩ := among
        refine ⟨asFile (more.map Row.line),?_⟩
        rw [← same,List.map_append,← List.cons_append,asFile_append]
  · rw [sessionCast,decoded,read,← List.map_take,
      rows_visual _ (fun row member => ticks row (List.mem_of_mem_take member))]

-- Once a packet has been handled to its end, a kill at any later moment leaves a
-- recording that replays all the records up to that packet that are below the
-- cap, and of what came after them, a marker included, a first part. Below the
-- cap are the first records, and all of them as long as no marker stands there.
theorem crash_keeps_handled_packets (platform : Platform) (cast : CastIo) (sessionId : Text)
    (packet : List (UInt8 × ByteIo)) (world : World) (through : (dataLoop platform packet world).1 = .next)
    (writer : Writer) {handled killed : writer.State} (handling : Runs writer.Step writer.fresh earlier handled) (idle : writer.Idle handled)
    (made : calls earlier = sessionCalls cast sessionId (data platform packet world).2.host.log)
    (running : Runs writer.Step handled more killed) (later : List Effect)
    (begun : calls earlier ++ calls more <+: sessionCalls cast sessionId ((data platform packet world).2.host.log ++ later)) :
    (∃ k, (sessionRows cast sessionId (data platform packet world).2.host.log).length ≤
        k+(recording cast sessionId (data platform packet world).2.host.log).truncated.toNat ∧
      k ≤ (sessionRows cast sessionId ((data platform packet world).2.host.log ++ later)).length ∧
      parseCast (sessionCast (writer.disk killed)) = (recordedOutput
        (((sessionRows cast sessionId ((data platform packet world).2.host.log ++ later)).take k).map Row.record)).map ofText) ∧
    ∀ log, ∃ held, (sessionRows cast sessionId log).map Row.record = (recordings log).take held ++
      (if (recording cast sessionId log).truncated then [(.output,truncationMarker)] else []) ∧
      ((recording cast sessionId log).truncated = false → held = (recordings log).length) := by
  refine ⟨?_,sessionRows_records cast sessionId⟩
  have log : ∃ before, (data platform packet world).2.host.log = before ++ [.recorderFlushed] := by
    unfold SessionInput.data
    split
    · exact ⟨_,rfl⟩
    · rename_i stopped
      rw [stopped] at through
      cases through
    · rename_i stopped
      rw [stopped] at through
      cases through
  obtain ⟨before,log⟩ := log
  have last : (calls earlier).getLast? = some .flush := by
    rw [made,log]
    exact sessionCalls_flushed cast sessionId before
  obtain ⟨flushed,cut⟩ := crash_keeps_flushed handling last idle running
  rw [made,sessionCalls_bytes] at flushed
  obtain ⟨rest,begun⟩ := begun
  have inside : writer.disk killed <+: bytesOf (calls earlier ++ calls more ++ rest) := by
    rw [bytesOf_append]
    exact cut.trans (List.prefix_append _ _)
  rw [begun,sessionCalls_bytes] at inside
  exact cut_replays cast sessionId _ later flushed inside

theorem recordCalls_append (clock : Nat → Nat → Text) (n : Nat) (log later : List Effect) (recorder : SessionRecorder) :
    ∃ more, recordCalls clock n (log ++ later) recorder = recordCalls clock n log recorder ++ more := by
  induction log generalizing n recorder with
  | nil => exact ⟨_,rfl⟩
  | cons effect rest ih =>
    cases effect with
    | recorded kind data =>
      obtain ⟨more,same⟩ := ih (n+1) (writeRecord (clock n) kind data recorder)
      exact ⟨more,by simp [recordCalls,same]⟩
    | _ =>
      obtain ⟨more,same⟩ := ih n recorder
      exact ⟨more,by simp [recordCalls,same]⟩

-- A kill that comes after the next record was written and before a flush.
theorem kill_possible (cast : CastIo) (sessionId : Text) (log later : List Effect) : ∃ earlier handled more killed,
    Runs Backlog.writer.Step Backlog.writer.fresh earlier handled ∧ Backlog.writer.Idle handled ∧
      calls earlier = sessionCalls cast sessionId log ∧ Runs Backlog.writer.Step handled more killed ∧
      calls earlier ++ calls more = sessionCalls cast sessionId (log ++ later) := by
  obtain ⟨extra,same⟩ := recordCalls_append cast.clock 0 log later (openRecorder cast.timestamp sessionId)
  have unused : Backlog.fresh.flushing = false := rfl
  obtain ⟨earlier,handled,handling,made,idle⟩ := Backlog.calls_complete (sessionCalls cast sessionId log) unused
  obtain ⟨more,killed,running,begun,_⟩ := Backlog.calls_complete extra idle
  refine ⟨earlier,handled,more,killed,handling,idle,made,running,?_⟩
  rw [made,begun,sessionCalls,sessionCalls,same,List.append_assoc]

theorem killed_after_a_line : ∃ killed k,
    (sessionRows plainCast "7".toList (data plainPlatform nextLine plainShell).2.host.log).length ≤
      k+(recording plainCast "7".toList (data plainPlatform nextLine plainShell).2.host.log).truncated.toNat ∧
    parseCast (sessionCast killed) = (recordedOutput (((sessionRows plainCast "7".toList
      ((data plainPlatform nextLine plainShell).2.host.log ++ [.recorded .output ['x']])).take k).map Row.record)).map ofText := by
  obtain ⟨earlier,handled,more,killed,handling,idle,made,running,begun⟩ := kill_possible plainCast "7".toList
    (data plainPlatform nextLine plainShell).2.host.log [.recorded .output ['x']]
  obtain ⟨⟨k,kept,_,replay⟩,_⟩ := crash_keeps_handled_packets plainPlatform plainCast "7".toList nextLine plainShell
    (by decide +kernel) Backlog.writer handling idle made running [.recorded .output ['x']] (begun ▸ List.prefix_rfl)
  exact ⟨Backlog.disk killed,k,kept,replay⟩

end AegisHoneypot.RecordingDurability
