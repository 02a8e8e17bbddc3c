import AegisHoneypot.Library.Utf8Text
import Mathlib.Logic.Function.Iterate

namespace AegisHoneypot.LogTailer
open Utf8Text LineStream

def maxTailChunkBytes : Nat := 8 * 1024 * 1024

-- The I/O steps of a poll that can fail. A missing file is no failure.
inductive PollFault where
  | opening
  | metadata
  | seeking
  | reading
  deriving DecidableEq, Repr

-- The offset lives outside: a poll that fails after noticing a shorter file has
-- already reset it.
def readNewLines (fault : Option PollFault) (file : Option Bytes) (offset : Nat) :
    Except PollFault (List Text) × Nat :=
  if fault = some .opening then (.error .opening,offset) else
  match file with
  | none => (.ok [],offset)
  | some content =>
    if fault = some .metadata then (.error .metadata,offset) else
    let len := content.length
    let offset := if len < offset then 0 else offset
    if len = offset then (.ok [],offset)
    else if fault = some .seeking then (.error .seeking,offset)
    else if fault = some .reading then (.error .reading,offset)
    else
      let want := min (len-offset) maxTailChunkBytes
      let buf := (content.drop offset).take want
      match rposition isNewlineByte buf with
      | none => (.ok [],offset)
      | some lastNewline => (.ok (lines (fromUtf8Lossy (buf.take (lastNewline+1)))),offset + (lastNewline+1))

theorem readNewLines_closed (behind rest : Bytes) :
    readNewLines none (some (behind ++ rest)) behind.length =
      (.ok (lines (fromUtf8Lossy (rest.take (closedLength isNewlineByte maxTailChunkBytes rest)))),
        behind.length + closedLength isNewlineByte maxTailChunkBytes rest) := by
  unfold readNewLines
  have len : (behind ++ rest).length - behind.length = rest.length := by simp
  have ahead : ¬ (behind ++ rest).length < behind.length := by simp
  have chunk : rest.take (min rest.length maxTailChunkBytes) = rest.take maxTailChunkBytes := by
    rw [Nat.min_comm,← List.take_take,List.take_length]
  simp only [reduceCtorEq,if_false,ahead,len,List.drop_left,chunk,closedLength]
  split
  · rename_i caughtUp
    have empty : rest = [] := by
      apply List.eq_nil_of_length_eq_zero
      simpa using caughtUp
    subst rest
    simp [rposition,fromUtf8Lossy,decodeFrom,lines,splitInclusive]
  · cases found : rposition isNewlineByte (rest.take maxTailChunkBytes) with
    | none => simp [fromUtf8Lossy,decodeFrom,lines,splitInclusive]
    | some last =>
      obtain ⟨before,stopper,after,split,rfl,_,_⟩ := rposition_some _ found
      have bound : before.length + 1 ≤ maxTailChunkBytes := by
        have short := List.length_take_le maxTailChunkBytes rest
        rw [split] at short
        simp at short
        omega
      simp only [List.take_take,Nat.min_eq_left bound]

-- The file as the tailer sees it: what lies behind the offset, then complete
-- lines, then the beginning of a line still being written. A poll takes whole
-- lines, and none only where the first one does not fit.
theorem readNewLines_taken (behind : Bytes) (valid : IsStream isNewlineByte records tail) :
    ∃ taken remaining, records = taken ++ remaining ∧
      readNewLines none (some (behind ++ (records.flatten ++ tail))) behind.length =
        (.ok (lines (fromUtf8Lossy taken.flatten)),behind.length + taken.flatten.length) ∧
      taken.flatten.length ≤ maxTailChunkBytes ∧
      (taken = [] → ∀ first, records.head? = some first → maxTailChunkBytes < first.length) := by
  obtain ⟨taken,remaining,rfl,same,bound,stuck⟩ := closedLength_taken valid maxTailChunkBytes
  refine ⟨taken,remaining,rfl,?_,bound,stuck⟩
  have front : ((taken ++ remaining).flatten ++ tail).take taken.flatten.length = taken.flatten := by
    rw [List.flatten_append,List.append_assoc,List.take_left]
  rw [readNewLines_closed,same,front]

def LineStart (content : Bytes) (offset : Nat) : Prop :=
  offset ≤ content.length ∧ ∀ byte, (content.take offset).getLast? = some byte → byte = newline

def poll (content : Bytes) (offset : Nat) : Nat := (readNewLines none (some content) offset).2

structure Progresses (content : Bytes) (offset : Nat) : Prop where
  advances : newline ∈ content.drop offset → ∃ taken next,
    readNewLines none (some content) offset = (.ok taken,next) ∧ taken ≠ [] ∧ offset < next
  reaches : ∃ polls, LineStart content ((poll content)^[polls] offset) ∧
    newline ∉ content.drop ((poll content)^[polls] offset)

theorem newline_in_records (valid : IsStream isNewlineByte records tail) :
    newline ∈ records.flatten ++ tail ↔ records ≠ [] := by
  constructor
  · rintro member rfl
    have silent := valid.silent newline (by simpa using member)
    cases silent
  · intro some_
    cases records with
    | nil => exact absurd rfl some_
    | cons record records =>
      obtain ⟨body,last,rfl,closes,_⟩ := valid.closed record (by simp)
      have same : last = newline := eq_of_beq closes
      simp [same]

theorem polls_taken (behind : Bytes) (valid : IsStream isNewlineByte records tail) (polls : Nat) :
    ∃ taken remaining, records = taken ++ remaining ∧
      (poll (behind ++ (records.flatten ++ tail)))^[polls] behind.length =
        (behind ++ taken.flatten).length ∧ ∀ record ∈ taken, record.length ≤ maxTailChunkBytes := by
  induction polls with
  | zero => exact ⟨[],records,rfl,by simp,by simp⟩
  | succ polls ih =>
    obtain ⟨taken,remaining,rfl,reached,fits⟩ := ih
    obtain ⟨more,rest,rfl,result,bound,_⟩ := readNewLines_taken (behind ++ taken.flatten) valid.later
    have content : behind ++ ((taken ++ (more ++ rest)).flatten ++ tail) =
        behind ++ taken.flatten ++ ((more ++ rest).flatten ++ tail) := by simp
    refine ⟨taken ++ more,rest,by simp,?_,?_⟩
    · rw [Function.iterate_succ_apply',reached,content,poll,result]
      simp [Nat.add_assoc]
    · intro record member
      rcases List.mem_append.mp member with old | new
      · exact fits record old
      · exact (List.sublist_flatten_of_mem new).length_le.trans bound

theorem lineStart_behind (behind : Bytes) (ends : ∀ byte, behind.getLast? = some byte → byte = newline)
    (valid : IsStream isNewlineByte (taken ++ remaining) tail) :
    LineStart (behind ++ ((taken ++ remaining).flatten ++ tail)) (behind ++ taken.flatten).length := by
  have front : (behind ++ ((taken ++ remaining).flatten ++ tail)).take (behind ++ taken.flatten).length =
      behind ++ taken.flatten := by
    rw [List.flatten_append,List.append_assoc,← List.append_assoc behind,List.take_left]
  refine ⟨by simp,?_⟩
  rw [front]
  intro byte last
  rw [List.getLast?_append] at last
  cases inner : taken.flatten.getLast? with
  | none =>
    rw [inner] at last
    exact ends byte last
  | some final =>
    rw [inner] at last
    cases last
    have closes : isNewlineByte byte = true :=
      records_last (fun record member => valid.closed record (List.mem_append_left _ member)) inner
    exact eq_of_beq closes

-- Where every line fits a poll takes at least one, so the number of polls is
-- bounded by the number of lines. The induction is on the lines not yet taken.
theorem polls_reach (behind : Bytes) (valid : IsStream isNewlineByte records tail)
    (fits : ∀ record ∈ records, record.length ≤ maxTailChunkBytes) :
    ∃ polls, (poll (behind ++ (records.flatten ++ tail)))^[polls] behind.length =
      (behind ++ records.flatten).length := by
  induction length : records.length using Nat.strongRecOn generalizing records behind with
  | ind count ih =>
    cases records with
    | nil => exact ⟨0,by simp⟩
    | cons first rest =>
      obtain ⟨taken,remaining,split,result,_,stuck⟩ := readNewLines_taken behind valid
      have some_ : taken ≠ [] := by
        intro none
        have long := stuck none first rfl
        have short := fits first (by simp)
        omega
      rw [split] at valid fits length result ⊢
      have fewer : remaining.length < count := by
        have positive := List.length_pos_iff.mpr some_
        simp at length
        omega
      obtain ⟨polls,reached⟩ := ih remaining.length fewer (behind ++ taken.flatten) valid.later
        (fun record member => fits record (by simp [member])) rfl
      refine ⟨polls+1,?_⟩
      have content : behind ++ ((taken ++ remaining).flatten ++ tail) =
          behind ++ taken.flatten ++ (remaining.flatten ++ tail) := by simp
      rw [Function.iterate_succ_apply,poll,result,← List.length_append,content,reached]
      simp

theorem complete_pieces (valid : IsStream isNewlineByte records tail) :
    (∀ line ∈ splitInclusive isNewlineByte (records.flatten ++ tail), line.getLast? = some newline →
      line.length ≤ maxTailChunkBytes) ↔ ∀ record ∈ records, record.length ≤ maxTailChunkBytes := by
  rw [splitInclusive_stream valid]
  constructor
  · intro all record member
    obtain ⟨last,same,closes⟩ := (valid.closed record member).last
    refine all record (by simp [member]) ?_
    rw [same,eq_of_beq closes]
  · intro all line member ends
    rcases List.mem_append.mp member with record | rest
    · exact all line record
    · have same : line = tail := by
        split at rest
        · cases rest
        · exact List.mem_singleton.mp rest
      subst line
      have silent := valid.silent newline (List.mem_of_getLast? ends)
      cases silent

theorem progress_exact (behind : Bytes) (ends : ∀ byte, behind.getLast? = some byte → byte = newline)
    (valid : IsStream isNewlineByte records tail) :
    Progresses (behind ++ (records.flatten ++ tail)) behind.length ↔
      ∀ record ∈ records, record.length ≤ maxTailChunkBytes := by
  constructor
  · intro given
    obtain ⟨_,polls,_,none⟩ := given
    obtain ⟨taken,remaining,rfl,reached,fits⟩ := polls_taken behind valid polls
    have content : behind ++ ((taken ++ remaining).flatten ++ tail) =
        behind ++ taken.flatten ++ (remaining.flatten ++ tail) := by simp
    rw [reached,content,List.drop_left,newline_in_records valid.later,not_not] at none
    subst none
    simpa using fits
  · intro fits
    constructor
    · intro some_
      rw [List.drop_left,newline_in_records valid] at some_
      obtain ⟨taken,remaining,rfl,result,_,stuck⟩ := readNewLines_taken behind valid
      have filled : taken ≠ [] := by
        intro none
        obtain ⟨first,head⟩ : ∃ first, (taken ++ remaining).head? = some first :=
          Option.ne_none_iff_exists'.mp (by simpa [none] using some_)
        have long := stuck none first head
        have short := fits first (List.mem_of_mem_head? head)
        omega
      have bytes : 0 < taken.flatten.length := by
        cases taken with
        | nil => exact absurd rfl filled
        | cons first rest =>
          have positive := (valid.closed first (by simp)).length_pos
          simp
          omega
      refine ⟨_,_,result,?_,by omega⟩
      exact lines_ne_nil _ (fromUtf8Lossy_ne_nil _ (List.ne_nil_of_length_pos bytes))
    · obtain ⟨polls,reached⟩ := polls_reach behind valid fits
      refine ⟨polls,?_⟩
      rw [reached]
      have all : IsStream isNewlineByte (records ++ []) tail := by simpa using valid
      have content : behind ++ ((records ++ []).flatten ++ tail) = behind ++ (records.flatten ++ tail) := by simp
      refine ⟨content ▸ lineStart_behind behind ends all,?_⟩
      rw [← List.append_assoc,List.drop_left]
      intro member
      have silent := valid.silent newline member
      cases silent

theorem tailer_progress_exact (content : Bytes) (offset : Nat) (start : LineStart content offset) :
    Progresses content offset ↔
      ∀ line ∈ splitInclusive isNewlineByte (content.drop offset), line.getLast? = some newline →
        line.length ≤ maxTailChunkBytes := by
  obtain ⟨records,tail,valid,unread⟩ := stream_exists isNewlineByte (content.drop offset)
  have exact_ := progress_exact (content.take offset) start.2 valid
  rw [← unread,List.take_append_drop,List.length_take_of_le start.1,← complete_pieces valid,← unread] at exact_
  exact exact_

def longLine : Bytes := List.replicate maxTailChunkBytes 97 ++ [newline]

-- A line one byte longer than a chunk is never delivered, and no later one.
theorem long_line_sticks :
    LineStart longLine 0 ∧ newline ∈ longLine.drop 0 ∧ readNewLines none (some longLine) 0 = (.ok [],0) ∧
      ¬ Progresses longLine 0 := by
  have start : LineStart longLine 0 := ⟨Nat.zero_le _,by simp⟩
  have none : closedLength isNewlineByte maxTailChunkBytes longLine = 0 := by
    have chunk : longLine.take maxTailChunkBytes = List.replicate maxTailChunkBytes 97 := by
      rw [longLine,List.take_append_of_le_length (by simp),List.take_of_length_le (by simp)]
    have silent : rposition isNewlineByte (List.replicate maxTailChunkBytes 97) = .none := by
      rw [rposition_none]
      intro byte member
      rw [List.eq_of_mem_replicate member]
      rfl
    rw [closedLength,chunk,silent]
  have stuck : readNewLines .none (some longLine) 0 = (.ok [],0) := by
    have poll := readNewLines_closed [] longLine
    rw [none] at poll
    exact poll
  refine ⟨start,by simp [longLine],stuck,?_⟩
  intro given
  obtain ⟨advances,_⟩ := given
  obtain ⟨taken,next,result,_,ahead⟩ := advances (by simp [longLine])
  rw [stuck] at result
  cases result
  cases ahead

def shortLines : Bytes := [123,125,newline,123,125,newline,123]

theorem short_lines_progress : LineStart shortLines 3 ∧ Progresses shortLines 3 := by
  have start : LineStart shortLines 3 := by
    refine ⟨by decide,?_⟩
    intro byte last
    exact (Option.some.inj last).symm
  exact ⟨start,(tailer_progress_exact shortLines 3 start).mpr (by decide)⟩

end AegisHoneypot.LogTailer
