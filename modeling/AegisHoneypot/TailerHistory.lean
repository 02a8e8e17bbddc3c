import AegisHoneypot.LogTailer

namespace AegisHoneypot.TailerHistory
open Utf8Text LineStream LogTailer

-- A poll during which the file grows: `late` is what was appended after the
-- length was taken and before the bytes were read.
def readNewLinesGrowing (fault : Option PollFault) (file : Option Bytes) (late : Bytes) (offset : Nat) :
    Except PollFault (List Text) × Nat :=
  if fault = some .opening then (.error .opening,offset) else
  match file with
  | none => (.ok [],offset)
  | some content =>
    if fault = some .metadata then (.error .metadata,offset) else
    let len := content.length
    let offset := if len < offset then 0 else offset
    if len = offset then (.ok [],offset)
    else if fault = some .seeking then (.error .seeking,offset)
    else if fault = some .reading then (.error .reading,offset)
    else
      let want := min (len-offset) maxTailChunkBytes
      let buf := ((content ++ late).drop offset).take want
      match rposition isNewlineByte buf with
      | none => (.ok [],offset)
      | some lastNewline => (.ok (lines (fromUtf8Lossy (buf.take (lastNewline+1)))),offset + (lastNewline+1))

-- The length that was taken bounds the read, so what came late waits for the
-- next poll.
theorem readNewLinesGrowing_exact (fault : Option PollFault) (file : Option Bytes) (late : Bytes) (offset : Nat) :
    readNewLinesGrowing fault file late offset = readNewLines fault file offset := by
  have bounded : ∀ (content : Bytes) (start : Nat),
      ((content ++ late).drop start).take (min (content.length-start) maxTailChunkBytes) =
        (content.drop start).take (min (content.length-start) maxTailChunkBytes) := by
    intro content start
    by_cases inside : start ≤ content.length
    · rw [List.drop_append_of_le_length inside,List.take_append_of_le_length]
      rw [List.length_drop]
      exact Nat.min_le_left _ _
    · have nothing : content.length-start = 0 := by omega
      simp [nothing]
  unfold readNewLinesGrowing readNewLines
  cases file with
  | none => rfl
  | some content =>
    have read := bounded content (if content.length < offset then 0 else offset)
    dsimp only
    exact read ▸ rfl

-- The log of an append-only writer, the offset of the tailer and the lines it
-- has handed on so far.
structure Tail where
  file : Option Bytes
  offset : Nat
  delivered : List Text

def Tail.initial : Tail := ⟨none,0,[]⟩

inductive Event where
  | grow (portion : Bytes)
  | poll (fault : Option PollFault) (late : Bytes)

def handedOn : Except PollFault (List Text) → List Text
  | .ok taken => taken
  | .error _ => []

def Tail.step (tail : Tail) : Event → Tail
  | .grow portion => {tail with file := some (tail.file.getD [] ++ portion)}
  | .poll fault late =>
    let result := readNewLinesGrowing fault tail.file late tail.offset
    ⟨tail.file.map (· ++ late),result.2,tail.delivered ++ handedOn result.1⟩

def Tail.run (events : List Event) : Tail := events.foldl Tail.step .initial

-- The lines of a file that are closed by a line feed.
def completeLines (bytes : Bytes) : List Text :=
  ((splitInclusive isNewlineByte bytes).filter (fun piece => piece.getLast? == some newline)).map lossyLine

structure Tail.Faithful (tail : Tail) : Prop where
  start : LineStart (tail.file.getD []) tail.offset
  lines : tail.delivered = completeLines ((tail.file.getD []).take tail.offset)

theorem completeLines_records {records : List Bytes} (valid : ∀ record ∈ records, IsRecord isNewlineByte record) :
    completeLines records.flatten = records.map lossyLine := by
  have stream : IsStream isNewlineByte records [] := ⟨valid,by simp⟩
  have pieces := splitInclusive_stream stream
  rw [List.append_nil,if_pos rfl,List.append_nil] at pieces
  have closed : records.filter (fun piece => piece.getLast? == some newline) = records := by
    apply List.filter_eq_self.mpr
    intro record member
    obtain ⟨last,same,closes⟩ := (valid record member).last
    rw [same,eq_of_beq closes]
    rfl
  rw [completeLines,pieces,closed]

theorem records_of_lineStart (start : LineStart content offset) :
    ∃ records : List Bytes, content.take offset = records.flatten ∧ ∀ record ∈ records, IsRecord isNewlineByte record := by
  obtain ⟨records,tail,valid,split⟩ := stream_exists isNewlineByte (content.take offset)
  refine ⟨records,?_,valid.closed⟩
  rcases List.eq_nil_or_concat tail with rfl | ⟨before,last,rfl⟩
  · rw [split,List.append_nil]
  · have ends := start.2 last (by rw [split]; simp)
    have silent := valid.silent last (by simp)
    rw [ends] at silent
    cases silent

theorem readNewLines_fault (fault : PollFault) (content : Bytes) (within : offset ≤ content.length) :
    handedOn (readNewLines (some fault) (some content) offset).1 = [] ∧
      (readNewLines (some fault) (some content) offset).2 = offset := by
  have long : ¬ content.length < offset := Nat.not_lt.mpr within
  unfold readNewLines
  simp only [long,if_false,Option.some.injEq]
  cases fault with
  | opening => exact ⟨rfl,rfl⟩
  | metadata => exact ⟨rfl,rfl⟩
  | seeking =>
    simp only [reduceCtorEq,if_false]
    split
    · exact ⟨rfl,rfl⟩
    · exact ⟨rfl,rfl⟩
  | reading =>
    simp only [reduceCtorEq,if_false]
    split
    · exact ⟨rfl,rfl⟩
    · exact ⟨rfl,rfl⟩

theorem readNewLines_missing (fault : Option PollFault) (offset : Nat) :
    handedOn (readNewLines fault none offset).1 = [] ∧ (readNewLines fault none offset).2 = offset := by
  unfold readNewLines
  split
  · exact ⟨rfl,rfl⟩
  · exact ⟨rfl,rfl⟩

-- What was appended since never changes the part before the offset.
theorem Faithful.grow (content portion : Bytes) (offset : Nat) (delivered : List Text)
    (faithful : Tail.Faithful ⟨some content,offset,delivered⟩) :
    Tail.Faithful ⟨some (content ++ portion),offset,delivered⟩ := by
  obtain ⟨⟨within,ends⟩,same⟩ := faithful
  have front : (content ++ portion).take offset = content.take offset := List.take_append_of_le_length within
  refine ⟨⟨?_,?_⟩,?_⟩
  · exact within.trans (by simp)
  · simp only [Option.getD_some,front]
    exact ends
  · simp only [Option.getD_some,front]
    exact same

theorem Faithful.read (content : Bytes) (offset : Nat) (delivered : List Text)
    (faithful : Tail.Faithful ⟨some content,offset,delivered⟩) :
    Tail.Faithful ⟨some content,(readNewLines none (some content) offset).2,
      delivered ++ handedOn (readNewLines none (some content) offset).1⟩ := by
  obtain ⟨start,same⟩ := faithful
  simp only [Option.getD_some] at start same
  obtain ⟨records,behind,closed⟩ := records_of_lineStart start
  obtain ⟨ahead,tail,valid,unread⟩ := stream_exists isNewlineByte (content.drop offset)
  obtain ⟨taken,remaining,rfl,result,_,_⟩ := readNewLines_taken (content.take offset) valid
  rw [← unread,List.take_append_drop,List.length_take_of_le start.1] at result
  have whole : content = content.take offset ++ ((taken ++ remaining).flatten ++ tail) := by
    rw [← unread,List.take_append_drop]
  have position : offset + taken.flatten.length = (content.take offset ++ taken.flatten).length := by
    rw [List.length_append,List.length_take_of_le start.1]
  have front : content.take (offset + taken.flatten.length) = (records ++ taken).flatten := by
    rw [List.take_add,unread,List.flatten_append,List.append_assoc,List.take_left,behind,← List.flatten_append]
  have takenClosed : ∀ record ∈ taken, IsRecord isNewlineByte record :=
    fun record member => valid.closed record (List.mem_append_left _ member)
  have allClosed : ∀ record ∈ records ++ taken, IsRecord isNewlineByte record := by
    rw [List.forall_mem_append]
    exact ⟨closed,takenClosed⟩
  rw [result]
  refine ⟨?_,?_⟩
  · have moved := lineStart_behind (content.take offset) start.2 valid
    rw [← whole,← position] at moved
    exact moved
  · simp only [Option.getD_some,front,handedOn]
    rw [completeLines_records allClosed,lines_records takenClosed,same,behind,completeLines_records closed,List.map_append]

theorem step_faithful (tail : Tail) (faithful : tail.Faithful) (event : Event) : (tail.step event).Faithful := by
  obtain ⟨file,offset,delivered⟩ := tail
  cases event with
  | grow portion =>
    cases file with
    | none => exact Faithful.grow [] portion offset delivered ⟨faithful.start,faithful.lines⟩
    | some content => exact Faithful.grow content portion offset delivered faithful
  | poll fault late =>
    simp only [Tail.step,readNewLinesGrowing_exact]
    cases file with
    | none =>
      obtain ⟨nothing,still⟩ := readNewLines_missing fault offset
      rw [nothing,still,List.append_nil]
      exact faithful
    | some content =>
      apply Faithful.grow
      cases fault with
      | none => exact Faithful.read content offset delivered faithful
      | some fault =>
        obtain ⟨nothing,still⟩ := readNewLines_fault fault content faithful.start.1
        rw [nothing,still,List.append_nil]
        exact faithful

theorem run_faithful (events : List Event) : (Tail.run events).Faithful := by
  induction events using List.reverseRecOn with
  | nil => exact ⟨⟨Nat.le_refl _,by intro byte none; cases none⟩,rfl⟩
  | append_singleton events event ih =>
    rw [Tail.run,List.foldl_append,List.foldl_cons,List.foldl_nil]
    exact step_faithful _ ih event

theorem tailer_faithful (events : List Event) :
    let tail := Tail.run events
    (tail.offset = 0 ∨ ∃ before, (tail.file.getD []).take tail.offset = before ++ [newline]) ∧
      tail.offset ≤ (tail.file.getD []).length ∧
      tail.delivered = completeLines ((tail.file.getD []).take tail.offset) := by
  obtain ⟨⟨within,ends⟩,same⟩ := run_faithful events
  refine ⟨?_,within,same⟩
  rcases List.eq_nil_or_concat (((Tail.run events).file.getD []).take (Tail.run events).offset) with none | ⟨before,last,split⟩
  · left
    have length := congrArg List.length none
    rw [List.length_take_of_le within] at length
    exact length
  · right
    rw [List.concat_eq_append] at split
    have closes := ends last (by rw [split]; simp)
    exact ⟨before,by rw [split,closes]⟩

end AegisHoneypot.TailerHistory
