import AegisHoneypot.GatewayHost
import AegisHoneypot.Library.Json

namespace AegisHoneypot.SessionRecording
open Utf8Text Utf16Text GatewayHost

def maxCastBytes : Nat := 32 * 1024 * 1024
def maxCastResponseBytes : Nat := 32 * 1024 * 1024

def kindCode : CastStream → Text
  | .output => ['o']
  | .input => ['i']

-- `serde_json::json!([elapsed, kind, data]).to_string()`, where `elapsed` is
-- the number as it is printed.
def castLine (elapsed : Text) (kind : CastStream) (data : Text) : Text :=
  '[' :: (elapsed ++ ',' :: (Json.quote (kindCode kind) ++ ',' :: (Json.quote data ++ [']'])))

def castHeader (timestamp : Nat) (sessionId : Text) : Text :=
  "\x7b\"env\":\x7b\"SHELL\":\"/bin/bash\",\"TERM\":\"xterm-256color\"\x7d,\"height\":50,\"timestamp\":".toList ++
    (toString timestamp).toList ++ ",\"title\":".toList ++ Json.quote ("aegis-honeypot session ".toList ++ sessionId) ++
    ",\"version\":2,\"width\":220\x7d".toList

structure SessionRecorder where
  file : Bytes
  written : Nat
  truncated : Bool

def openRecorder (timestamp : Nat) (sessionId : Text) : SessionRecorder :=
  let header := encode (castHeader timestamp sessionId ++ ['\n'])
  ⟨header,header.length,false⟩

def truncationMarker : Text := "\r\n[aegis: recording truncated at 33554432 bytes]\r\n".toList

-- The clock is read for the record and once more for the marker.
def writeRecord (clock : Nat → Text) (kind : CastStream) (data : Text) (recorder : SessionRecorder) : SessionRecorder :=
  if recorder.truncated then recorder else
  let line := encode (castLine (clock 0) kind data ++ ['\n'])
  if maxCastBytes < recorder.written+line.length then
    {recorder with truncated := true,file := recorder.file ++ encode (castLine (clock 1) .output truncationMarker ++ ['\n'])}
  else {recorder with file := recorder.file ++ line,written := recorder.written+line.length}

-- The calls of `record_output` and `record_input` among the effects.
def recordings (log : List Effect) : List (CastStream × Text) := log.filterMap fun
  | .recorded kind data => some (kind,data)
  | _ => none

def recordAll (clock : Nat → Nat → Text) : Nat → List (CastStream × Text) → SessionRecorder → SessionRecorder
  | _,[],recorder => recorder
  | n,(kind,data) :: rest,recorder => recordAll clock (n+1) rest (writeRecord (clock n) kind data recorder)

def sessionCast (file : Bytes) : Text := fromUtf8Lossy (file.take maxCastResponseBytes)

-- The white space of `String.prototype.trim`
def isSpace (c : Char) : Bool :=
  c == '\t' || c == '\n' || c == '\x0b' || c == '\x0c' || c == '\r' || c == ' ' || c.toNat == 0xa0 || c.toNat == 0x1680 ||
    (0x2000 ≤ c.toNat && c.toNat ≤ 0x200a) || c.toNat == 0x2028 || c.toNat == 0x2029 || c.toNat == 0x202f ||
    c.toNat == 0x205f || c.toNat == 0x3000 || c.toNat == 0xfeff

def rawLines (text : Text) : List Text := (text.split '\n').filter (fun line => !line.all isSpace)

-- `const [time, kind, data] = JSON.parse(line)`
def parseLine (line : Text) : Option (Units × Units) :=
  (Json.readMark '[' line).bind fun rest => (Json.readNumber rest).bind fun rest =>
  (Json.readMark ',' rest).bind fun rest => (Json.readMark '"' rest).bind fun rest =>
  (Json.readString rest).bind fun kind =>
  (Json.readMark ',' kind.2).bind fun rest => (Json.readMark '"' rest).bind fun rest =>
  (Json.readString rest).bind fun data => if data.2 = [']'] then some (kind.1,data.1) else none

def visual (parsed : Units × Units) : Option Units := if parsed.1 = ofText ['o'] then some parsed.2 else none

-- The header is dropped, and lines that cannot be read.
def parseCast (text : Text) : List Units := ((rawLines text).drop 1).filterMap fun line => (parseLine line).bind visual

def castLines (clock : Nat → Nat → Text) : Nat → List (CastStream × Text) → List Text
  | _,[] => []
  | n,(kind,data) :: rest => castLine (clock n 0) kind data :: castLines clock (n+1) rest

def asFile (lines : List Text) : Text := lines.flatMap (· ++ ['\n'])

def recordedOutput (records : List (CastStream × Text)) : List Text := records.filterMap fun
  | (.output,data) => some data
  | (.input,_) => none

-- `serde_json` prints a finite float as a JSON number.
def Ticks (clock : Nat → Nat → Text) : Prop := ∀ n reading, Json.isNumber (clock n reading) = true

theorem parseLine_castLine (kind : CastStream) (data : Text) (number : Json.isNumber elapsed = true) :
    parseLine (castLine elapsed kind data) = some (ofText (kindCode kind),ofText data) := by
  have afterNumber := Json.readNumber_number elapsed (Json.quote (kindCode kind) ++ ',' :: (Json.quote data ++ [']'])) number
    (show Json.isNumberChar ',' = false by decide)
  have afterKind := Json.readString_escape (kindCode kind) (',' :: (Json.quote data ++ [']']))
  have afterData := Json.readString_escape data [']']
  simp only [Json.quote,List.cons_append,List.append_assoc,List.nil_append] at afterNumber afterKind afterData
  simp only [parseLine,castLine,Json.quote,List.cons_append,List.append_assoc,List.nil_append,Json.readMark,if_true,
    Option.bind_some,afterNumber,afterKind,afterData]

theorem castLine_line (kind : CastStream) (data : Text) (number : Json.isNumber elapsed = true) :
    '\n' ∉ castLine elapsed kind data := by
  have digits : '\n' ∉ elapsed := by
    intro held
    have allowed := List.all_eq_true.mp (Json.isNumber_chars elapsed number) '\n' held
    exact absurd allowed (by decide)
  simp [castLine,digits,Json.quote_line]

theorem number_line (n : Nat) : '\n' ∉ (toString n).toList := by
  intro held
  have printed : '\n' ∈ Nat.toDigits 10 n := by simpa using held
  have digit : '\n'.isDigit = true := Nat.isDigit_of_mem_toDigits (by decide) (by decide) printed
  exact absurd digit (by decide)

theorem line_append {front back : Text} (left : '\n' ∉ front) (right : '\n' ∉ back) : '\n' ∉ front ++ back := by
  simp [left,right]

theorem castHeader_line (timestamp : Nat) (sessionId : Text) : '\n' ∉ castHeader timestamp sessionId := by
  unfold castHeader
  refine line_append (line_append (line_append (line_append ?_ ?_) ?_) ?_) ?_
  · simp
  · exact number_line timestamp
  · decide
  · exact Json.quote_line _
  · decide

theorem castHeader_shown (timestamp : Nat) (sessionId : Text) : (castHeader timestamp sessionId).all isSpace = false := by
  unfold castHeader
  simp only [List.all_append]
  rw [show List.all (String.toList _) isSpace = false by decide]
  rfl

theorem split_asFile (lines : List Text) (single : ∀ line ∈ lines, '\n' ∉ line) :
    Text.split '\n' (asFile lines) = lines ++ [[]] := by
  induction lines with
  | nil => rfl
  | cons line rest ih =>
    rw [List.forall_mem_cons] at single
    obtain ⟨first,later⟩ := single
    simp only [asFile,Text.split,List.flatMap_cons,List.append_assoc,List.singleton_append] at ih ⊢
    rw [List.splitOn_append_cons_self_of_not_mem first,ih later]
    rfl

theorem parseCast_asFile (head : Text) (lines : List Text) (single : ∀ line ∈ head :: lines, '\n' ∉ line)
    (shown : ∀ line ∈ head :: lines, line.all isSpace = false) :
    parseCast (asFile (head :: lines)) = lines.filterMap fun line => (parseLine line).bind visual := by
  have kept : (head :: lines).filter (fun line => !line.all isSpace) = head :: lines :=
    List.filter_eq_self.mpr (fun line member => by rw [shown line member]; rfl)
  unfold parseCast rawLines
  rw [split_asFile _ single,List.filter_append,kept]
  simp

theorem castLines_member (clock : Nat → Nat → Text) (ticks : Ticks clock) (n : Nat) (records : List (CastStream × Text)) :
    ∀ line ∈ castLines clock n records, '\n' ∉ line ∧ line.all isSpace = false := by
  induction records generalizing n with
  | nil =>
    intro line member
    cases member
  | cons record rest ih =>
    obtain ⟨kind,data⟩ := record
    simp only [castLines,List.forall_mem_cons]
    refine ⟨⟨castLine_line kind data (ticks n 0),?_⟩,ih (n+1)⟩
    rw [castLine,List.all_cons]
    rfl

theorem castLines_visual (clock : Nat → Nat → Text) (ticks : Ticks clock) (n : Nat) (records : List (CastStream × Text)) :
    (castLines clock n records).filterMap (fun line => (parseLine line).bind visual) =
      (recordedOutput records).map ofText := by
  induction records generalizing n with
  | nil => rfl
  | cons record rest ih =>
    obtain ⟨kind,data⟩ := record
    simp only [castLines,List.filterMap_cons,parseLine_castLine kind data (ticks n 0),Option.bind_some,ih (n+1)]
    cases kind with
    | output => rfl
    | input => rfl

theorem recordAll_truncated (clock : Nat → Nat → Text) (n : Nat) (records : List (CastStream × Text))
    (recorder : SessionRecorder) (truncated : recorder.truncated = true) :
    (recordAll clock n records recorder).truncated = true := by
  induction records generalizing n with
  | nil => exact truncated
  | cons record rest ih =>
    simp only [recordAll]
    rw [show writeRecord (clock n) record.1 record.2 recorder = recorder from if_pos truncated]
    exact ih (n+1)

theorem recordAll_append (clock : Nat → Nat → Text) (n : Nat) (front later : List (CastStream × Text))
    (recorder : SessionRecorder) :
    recordAll clock n (front ++ later) recorder = recordAll clock (n+front.length) later (recordAll clock n front recorder) := by
  induction front generalizing n recorder with
  | nil => rfl
  | cons record rest ih =>
    simp only [List.cons_append,recordAll,List.length_cons]
    rw [ih,show n+1+rest.length = n+(rest.length+1) by omega]

theorem recordAll_whole (clock : Nat → Nat → Text) (n : Nat) (front later : List (CastStream × Text))
    (recorder : SessionRecorder) (whole : (recordAll clock n (front ++ later) recorder).truncated = false) :
    (recordAll clock n front recorder).truncated = false := by
  cases cut : (recordAll clock n front recorder).truncated with
  | false => rfl
  | true =>
    rw [recordAll_append,recordAll_truncated clock _ later _ cut] at whole
    cases whole

-- What a recorder that is not cut off has written.
structure Wrote (lines : List Text) (before after : SessionRecorder) : Prop where
  file : after.file = before.file ++ encode (asFile lines)
  written : after.written = before.written+(encode (asFile lines)).length

theorem encode_append (left right : Text) : encode (left ++ right) = encode left ++ encode right :=
  List.flatMap_append ..

theorem writeRecord_wrote (clock : Nat → Text) (kind : CastStream) (data : Text) (recorder : SessionRecorder)
    (whole : (writeRecord clock kind data recorder).truncated = false) :
    Wrote [castLine (clock 0) kind data] recorder (writeRecord clock kind data recorder) ∧
      (writeRecord clock kind data recorder).written ≤ maxCastBytes := by
  unfold writeRecord at whole ⊢
  split at whole
  · rename_i cut
    rw [cut] at whole
    cases whole
  · rename_i going
    rw [if_neg going]
    dsimp only at whole ⊢
    split at whole
    · cases whole
    · rename_i fits
      rw [if_neg fits]
      have line : asFile [castLine (clock 0) kind data] = castLine (clock 0) kind data ++ ['\n'] := by simp [asFile]
      refine ⟨⟨by rw [line],by rw [line]⟩,by dsimp only; omega⟩

theorem recordAll_wrote (clock : Nat → Nat → Text) (n : Nat) (records : List (CastStream × Text))
    (recorder : SessionRecorder) (whole : (recordAll clock n records recorder).truncated = false) :
    Wrote (castLines clock n records) recorder (recordAll clock n records recorder) ∧
      (records ≠ [] → (recordAll clock n records recorder).written ≤ maxCastBytes) := by
  induction records generalizing n recorder with
  | nil => exact ⟨⟨(List.append_nil _).symm,rfl⟩,fun some_ => absurd rfl some_⟩
  | cons record rest ih =>
    obtain ⟨kind,data⟩ := record
    have first : (writeRecord (clock n) kind data recorder).truncated = false :=
      recordAll_whole clock n [(kind,data)] rest recorder whole
    obtain ⟨wrote,fits⟩ := writeRecord_wrote (clock n) kind data recorder first
    obtain ⟨later,bounded⟩ := ih (n+1) (writeRecord (clock n) kind data recorder) whole
    have lines : asFile (castLines clock n ((kind,data) :: rest)) =
        asFile [castLine (clock n 0) kind data] ++ asFile (castLines clock (n+1) rest) := by
      simp [asFile,castLines]
    refine ⟨⟨?_,?_⟩,fun _ => ?_⟩
    · rw [lines,encode_append,← List.append_assoc,← wrote.file]
      exact later.file
    · rw [lines,encode_append,List.length_append,← Nat.add_assoc,← wrote.written]
      exact later.written
    · cases rest with
      | nil => exact fits
      | cons next more => exact bounded (List.cons_ne_nil _ _)

-- A recording that is not cut off reads back as what was recorded of the output.
theorem parseCast_recorded (clock : Nat → Nat → Text) (ticks : Ticks clock) (timestamp : Nat) (sessionId : Text)
    (records : List (CastStream × Text)) (some_ : records ≠ [])
    (whole : (recordAll clock 0 records (openRecorder timestamp sessionId)).truncated = false) :
    parseCast (sessionCast (recordAll clock 0 records (openRecorder timestamp sessionId)).file) =
      (recordedOutput records).map ofText := by
  obtain ⟨wrote,bounded⟩ := recordAll_wrote clock 0 records (openRecorder timestamp sessionId) whole
  have file : (recordAll clock 0 records (openRecorder timestamp sessionId)).file =
      encode (asFile (castHeader timestamp sessionId :: castLines clock 0 records)) := by
    rw [wrote.file]
    simp only [openRecorder,asFile,List.flatMap_cons,encode_append]
  have fits : (encode (asFile (castHeader timestamp sessionId :: castLines clock 0 records))).length ≤ maxCastResponseBytes := by
    have small := bounded some_
    rw [wrote.written] at small
    simp only [openRecorder,asFile,List.flatMap_cons,encode_append,List.length_append] at small ⊢
    exact small
  have members := castLines_member clock ticks 0 records
  rw [sessionCast,file,List.take_of_length_le fits,← List.append_nil (encode _),fromUtf8Lossy_encode]
  rw [show fromUtf8Lossy [] = [] from rfl,List.append_nil,parseCast_asFile,castLines_visual clock ticks]
  · rw [List.forall_mem_cons]
    exact ⟨castHeader_line timestamp sessionId,fun line member => (members line member).1⟩
  · rw [List.forall_mem_cons]
    exact ⟨castHeader_shown timestamp sessionId,fun line member => (members line member).2⟩

end AegisHoneypot.SessionRecording
