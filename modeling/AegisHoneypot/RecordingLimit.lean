import AegisHoneypot.SessionRecording

-- A recording stops at a size. What the file then holds, and what of it the
-- dashboard hands to the player.
namespace AegisHoneypot.RecordingLimit
open Utf8Text GatewayHost SessionRecording

def isAsciiHexdigit (c : Char) : Bool := ('0' ≤ c && c ≤ '9') || ('a' ≤ c && c ≤ 'f') || ('A' ≤ c && c ≤ 'F')

-- A `SessionId` is made of twelve hexadecimal digits; the dashboard asks for less.
def isValidSessionId (id : Text) : Bool := !id.isEmpty && decide ((encode id).length ≤ 64) && id.all isAsciiHexdigit

-- The status and the body; `file` is what opening and reading the recording gives.
def sessionCastResponse (file : Option Bytes) (id : Text) : Nat × Text :=
  if !isValidSessionId id then (400,[]) else
  match file with
  | none => (404,[])
  | some bytes => (200,sessionCast bytes)

section Layout
variable (clock : Nat → Nat → Text) (timestamp : Nat) (sessionId : Text) (calls : List (CastStream × Text))

def headerLine (timestamp : Nat) (sessionId : Text) : Bytes := encode (castHeader timestamp sessionId ++ ['\n'])

-- The file after the header and the records of the first `n` calls.
def fileAfter (n : Nat) : Bytes := headerLine timestamp sessionId ++ encode (asFile (castLines clock 0 (calls.take n)))

-- The line that ends a recording when the call after the first `n` does not fit.
def markerLine (n : Nat) : Text := castLine (clock n 1) .output truncationMarker ++ ['\n']

-- `n` is the longest prefix of calls that fits, and the recorder holds it.
structure Capped (n : Nat) (recorder : SessionRecorder) : Prop where
  within : n ≤ calls.length
  longest : ∀ m ≤ calls.length, (fileAfter clock timestamp sessionId calls m).length ≤ maxCastBytes ↔ m ≤ n
  latch : recorder.truncated = decide (n < calls.length)
  file : recorder.file = fileAfter clock timestamp sessionId calls n ++
    (if n < calls.length then encode (markerLine clock n) else [])
  written : recorder.written = (fileAfter clock timestamp sessionId calls n).length
  bounded : recorder.file.length ≤ maxCastBytes + (encode (markerLine clock n)).length

end Layout

theorem castLines_append (clock : Nat → Nat → Text) (n : Nat) (front later : List (CastStream × Text)) :
    castLines clock n (front ++ later) = castLines clock n front ++ castLines clock (n+front.length) later := by
  induction front generalizing n with
  | nil => rfl
  | cons record rest ih =>
    obtain ⟨kind,data⟩ := record
    rw [List.cons_append,castLines,castLines,ih,List.length_cons,List.cons_append,show n+1+rest.length = n+(rest.length+1) by omega]

theorem asFile_append (front later : List Text) : asFile (front ++ later) = asFile front ++ asFile later :=
  List.flatMap_append ..

theorem fileAfter_earlier (clock : Nat → Nat → Text) (timestamp : Nat) (sessionId : Text)
    (calls : List (CastStream × Text)) (call : CastStream × Text) (n : Nat) (within : n ≤ calls.length) :
    fileAfter clock timestamp sessionId (calls ++ [call]) n = fileAfter clock timestamp sessionId calls n := by
  rw [fileAfter,fileAfter,List.take_append_of_le_length within]

theorem fileAfter_next (clock : Nat → Nat → Text) (timestamp : Nat) (sessionId : Text)
    (calls : List (CastStream × Text)) (kind : CastStream) (data : Text) :
    fileAfter clock timestamp sessionId (calls ++ [(kind,data)]) (calls.length+1) =
      fileAfter clock timestamp sessionId calls calls.length ++
        encode (castLine (clock calls.length 0) kind data ++ ['\n']) := by
  have all : (calls ++ [(kind,data)]).take (calls.length+1) = calls ++ [(kind,data)] := List.take_of_length_le (by simp)
  rw [fileAfter,fileAfter,all,List.take_length,castLines_append,asFile_append,encode_append,List.append_assoc,Nat.zero_add]
  simp [castLines,asFile]

theorem fileAfter_mono (clock : Nat → Nat → Text) (timestamp : Nat) (sessionId : Text)
    (calls : List (CastStream × Text)) (shorter : m ≤ n) :
    (fileAfter clock timestamp sessionId calls m).length ≤ (fileAfter clock timestamp sessionId calls n).length := by
  have parts : calls.take n = calls.take m ++ (calls.take n).drop m := by
    have whole := (List.take_append_drop m (calls.take n)).symm
    rwa [List.take_take,Nat.min_eq_left shorter] at whole
  rw [fileAfter,fileAfter,parts,castLines_append,asFile_append,encode_append,List.length_append,List.length_append,
    List.length_append]
  omega

section Steps
variable {clock : Nat → Nat → Text} {timestamp : Nat} {sessionId : Text} {calls : List (CastStream × Text)}
  {recorder : SessionRecorder}

theorem opened_capped (fits : (headerLine timestamp sessionId).length ≤ maxCastBytes) :
    Capped clock timestamp sessionId [] 0 (openRecorder timestamp sessionId) := by
  have only : fileAfter clock timestamp sessionId [] 0 = headerLine timestamp sessionId := List.append_nil _
  refine ⟨Nat.le_refl 0,?_,rfl,?_,?_,?_⟩
  · intro m none_
    have zero : m = 0 := Nat.le_zero.mp none_
    rw [zero,only]
    exact ⟨fun _ => Nat.le_refl 0,fun _ => fits⟩
  · rw [only]
    exact (List.append_nil _).symm
  · rw [only]
    rfl
  · exact fits.trans (Nat.le_add_right _ _)

-- A recorder that has been cut off ignores the call.
theorem ignored_capped (kind : CastStream) (data : Text) (capped : Capped clock timestamp sessionId calls n recorder)
    (cut : n < calls.length) : Capped clock timestamp sessionId (calls ++ [(kind,data)]) n
      (writeRecord (clock calls.length) kind data recorder) := by
  have latched : recorder.truncated = true := capped.latch.trans (decide_eq_true cut)
  have longer : n < (calls ++ [(kind,data)]).length := by
    rw [List.length_append]
    omega
  rw [writeRecord,if_pos latched]
  refine ⟨longer.le,?_,by rw [latched,decide_eq_true longer],?_,?_,capped.bounded⟩
  · intro m within
    by_cases earlier : m ≤ calls.length
    · rw [fileAfter_earlier _ _ _ _ _ _ earlier]
      exact capped.longest m earlier
    · have exceeds : ¬ (fileAfter clock timestamp sessionId calls calls.length).length ≤ maxCastBytes := by
        rw [capped.longest _ le_rfl]
        omega
      have larger := fileAfter_mono clock timestamp sessionId (calls ++ [(kind,data)]) (Nat.le_of_not_le earlier)
      rw [fileAfter_earlier _ _ _ _ _ _ le_rfl] at larger
      constructor
      · intro small
        omega
      · intro small
        omega
  · rw [fileAfter_earlier _ _ _ _ _ _ capped.within,if_pos longer,capped.file,if_pos cut]
  · rw [fileAfter_earlier _ _ _ _ _ _ capped.within]
    exact capped.written

theorem call_capped (kind : CastStream) (data : Text)
    (capped : Capped clock timestamp sessionId calls calls.length recorder) :
    ∃ n, Capped clock timestamp sessionId (calls ++ [(kind,data)]) n
      (writeRecord (clock calls.length) kind data recorder) := by
  have going : ¬ recorder.truncated = true := by
    rw [capped.latch]
    simp
  have whole : recorder.file = fileAfter clock timestamp sessionId calls calls.length := by
    rw [capped.file,if_neg (Nat.lt_irrefl _),List.append_nil]
  have held : (fileAfter clock timestamp sessionId calls calls.length).length ≤ maxCastBytes :=
    (capped.longest _ le_rfl).mpr le_rfl
  have next := fileAfter_next clock timestamp sessionId calls kind data
  have longer : (calls ++ [(kind,data)]).length = calls.length+1 := by simp
  have earlier : ∀ m ≤ calls.length,
      (fileAfter clock timestamp sessionId (calls ++ [(kind,data)]) m).length ≤ maxCastBytes := by
    intro m within
    rw [fileAfter_earlier _ _ _ _ _ _ within]
    exact (capped.longest m within).mpr within
  rw [writeRecord,if_neg going]
  dsimp only
  rw [capped.written]
  split
  · rename_i exceeds
    refine ⟨calls.length,by omega,?_,?_,?_,?_,?_⟩
    · intro m within
      by_cases last : m ≤ calls.length
      · exact ⟨fun _ => last,fun _ => earlier m last⟩
      · have same : m = calls.length+1 := by omega
        rw [same,next,List.length_append]
        omega
    · rw [longer]
      simp
    · rw [fileAfter_earlier _ _ _ _ _ _ le_rfl,if_pos (by omega),whole]
      rfl
    · rw [fileAfter_earlier _ _ _ _ _ _ le_rfl]
    · dsimp only
      rw [whole,List.length_append]
      exact Nat.add_le_add_right held _
  · rename_i fits
    have small : (fileAfter clock timestamp sessionId (calls ++ [(kind,data)]) (calls.length+1)).length ≤ maxCastBytes := by
      rw [next,List.length_append]
      omega
    refine ⟨calls.length+1,longer.ge,?_,?_,?_,?_,?_⟩
    · intro m within
      refine ⟨fun _ => by omega,fun _ => ?_⟩
      by_cases last : m ≤ calls.length
      · exact earlier m last
      · have same : m = calls.length+1 := by omega
        rwa [same]
    · rw [longer]
      simpa using going
    · rw [longer,if_neg (Nat.lt_irrefl _),List.append_nil,next,whole]
    · rw [next,List.length_append]
    · dsimp only
      rw [whole,← next]
      exact small.trans (Nat.le_add_right _ _)

end Steps

theorem recordAll_capped (clock : Nat → Nat → Text) (timestamp : Nat) (sessionId : Text)
    (fits : (headerLine timestamp sessionId).length ≤ maxCastBytes) (calls : List (CastStream × Text)) :
    ∃ n, Capped clock timestamp sessionId calls n (recordAll clock 0 calls (openRecorder timestamp sessionId)) := by
  induction calls using List.reverseRecOn with
  | nil => exact ⟨0,opened_capped fits⟩
  | append_singleton calls call ih =>
    obtain ⟨kind,data⟩ := call
    obtain ⟨n,capped⟩ := ih
    rw [recordAll_append,Nat.zero_add]
    rcases Nat.lt_or_ge n calls.length with cut | all
    · exact ⟨n,ignored_capped kind data capped cut⟩
    · have same : n = calls.length := Nat.le_antisymm capped.within all
      exact call_capped kind data (same ▸ capped)

theorem encodeChar_length (c : Char) : (encodeChar c).length ≤ 4 := by
  unfold encodeChar
  dsimp only
  split
  · simp
  · split
    · simp
    · split
      · simp
      · simp

theorem encode_length (text : Text) : (encode text).length ≤ 4*text.length := by
  induction text with
  | nil => exact Nat.le_refl 0
  | cons c rest ih =>
    have first := encodeChar_length c
    rw [encode,List.flatMap_cons,List.length_append,List.length_cons]
    change _ + (encode rest).length ≤ _
    omega

theorem hexdigit_plain (c : Char) (hex : isAsciiHexdigit c = true) : Json.escapeChar c = [c] ∧ encodeChar c = [.ofNat c.toNat] := by
  have range : (48 ≤ c.toNat ∧ c.toNat ≤ 57) ∨ (97 ≤ c.toNat ∧ c.toNat ≤ 102) ∨ (65 ≤ c.toNat ∧ c.toNat ≤ 70) := by
    simp only [isAsciiHexdigit,Bool.or_eq_true,Bool.and_eq_true,decide_eq_true_eq,Char.le_def,UInt32.le_iff_toNat_le] at hex
    rcases hex with (digit | lower) | upper
    · exact Or.inl digit
    · exact Or.inr (Or.inl lower)
    · exact Or.inr (Or.inr upper)
  have other : ∀ d : Char, ¬ ((48 ≤ d.toNat ∧ d.toNat ≤ 57) ∨ (97 ≤ d.toNat ∧ d.toNat ≤ 102) ∨ (65 ≤ d.toNat ∧ d.toNat ≤ 70)) →
      c ≠ d := fun d outside same => outside (same ▸ range)
  constructor
  · unfold Json.escapeChar
    rw [if_neg (other _ (by decide)),if_neg (other _ (by decide)),if_neg (other _ (by decide)),if_neg (other _ (by decide)),
      if_neg (other _ (by decide)),if_neg (other _ (by decide)),if_neg (other _ (by decide)),if_neg (by omega)]
  · unfold encodeChar
    dsimp only
    rw [if_pos (by omega)]

theorem hexdigits_plain (id : Text) (hex : id.all isAsciiHexdigit = true) : Json.escape id = id ∧ (encode id).length = id.length := by
  induction id with
  | nil => exact ⟨rfl,rfl⟩
  | cons c rest ih =>
    rw [List.all_cons,Bool.and_eq_true] at hex
    obtain ⟨escaped,bytes⟩ := hexdigit_plain c hex.1
    obtain ⟨later,length⟩ := ih hex.2
    constructor
    · rw [Json.escape,List.flatMap_cons,escaped]
      exact congrArg (c :: ·) later
    · rw [encode,List.flatMap_cons,bytes,List.length_append,List.length_cons,List.length_cons,List.length_nil,Nat.zero_add,
        Nat.add_comm 1]
      exact congrArg (· + 1) length

theorem header_size (n : Nat) (id : Text) (escaped : Json.escape id = id) :
    (castHeader n id ++ ['\n']).length = (Nat.toDigits 10 n).length + id.length + 137 := by
  have title : Json.escape ("aegis-honeypot session ".toList ++ id) = "aegis-honeypot session ".toList ++ id := by
    rw [Json.escape,List.flatMap_append]
    exact congrArg₂ (· ++ ·) (by decide) escaped
  unfold castHeader Json.quote
  rw [title]
  simp
  omega

-- The header of a session that the gateway has opened leaves room for records.
theorem header_fits (timestamp : UInt64) (sessionId : Text) (valid : isValidSessionId sessionId = true) :
    (headerLine timestamp.toNat sessionId).length ≤ maxCastBytes := by
  simp only [isValidSessionId,Bool.and_eq_true,decide_eq_true_eq] at valid
  obtain ⟨escaped,bytes⟩ := hexdigits_plain sessionId valid.2
  have short : sessionId.length ≤ 64 := bytes ▸ valid.1.2
  have digits : (Nat.toDigits 10 timestamp.toNat).length ≤ 20 := by
    have size := timestamp.toNat_lt
    rw [Nat.length_toDigits_le_iff (by decide) (by decide)]
    omega
  have size := header_size timestamp.toNat sessionId escaped
  refine (encode_length _).trans ?_
  unfold maxCastBytes
  omega

theorem recorder_capped (clock : Nat → Nat → Text) (timestamp : UInt64) (sessionId : Text)
    (valid : isValidSessionId sessionId = true) (calls : List (CastStream × Text)) :
    ∃ n, Capped clock timestamp.toNat sessionId calls n (recordAll clock 0 calls (openRecorder timestamp.toNat sessionId)) :=
  recordAll_capped clock timestamp.toNat sessionId (header_fits timestamp sessionId valid) calls

def stillClock (_ _ : Nat) : Text := "0.5".toList

theorem recorder_capped_prompt : ∃ n, Capped stillClock 0 "ab12cd34ef56".toList
    [(.output,"login: ".toList),(.input,"root".toList)] n
    (recordAll stillClock 0 [(.output,"login: ".toList),(.input,"root".toList)] (openRecorder 0 "ab12cd34ef56".toList)) :=
  recorder_capped stillClock 0 "ab12cd34ef56".toList (by decide) [(.output,"login: ".toList),(.input,"root".toList)]

section Served
variable (clock : Nat → Nat → Text) (timestamp : Nat) (sessionId : Text) (calls : List (CastStream × Text))

-- The answer to the player has the recording to its last character, and so the
-- marker of one that was cut off.
def ServedWhole : Prop :=
  ∃ body, encode body = (recordAll clock 0 calls (openRecorder timestamp sessionId)).file ∧
    sessionCastResponse (some (recordAll clock 0 calls (openRecorder timestamp sessionId)).file) sessionId = (200,body) ∧
    ((recordAll clock 0 calls (openRecorder timestamp sessionId)).truncated = true →
      ∃ elapsed, castLine elapsed .output truncationMarker ++ ['\n'] <:+ body)

-- Where some call does not fit, those before it leave room for the marker too.
def LeavesRoom : Prop :=
  ∀ n < calls.length, (fileAfter clock timestamp sessionId calls n).length ≤ maxCastBytes →
    maxCastBytes < (fileAfter clock timestamp sessionId calls (n+1)).length →
    (fileAfter clock timestamp sessionId calls n).length + (encode (markerLine clock n)).length ≤ maxCastResponseBytes

def textAfter (n : Nat) : Text := (castHeader timestamp sessionId ++ ['\n']) ++ asFile (castLines clock 0 (calls.take n))

theorem textAfter_bytes (n : Nat) : encode (textAfter clock timestamp sessionId calls n) = fileAfter clock timestamp sessionId calls n :=
  encode_append _ _

end Served

theorem numberChar_ascii (c : Char) (allowed : Json.isNumberChar c = true) : c.toNat < 0x80 := by
  simp only [Json.isNumberChar,Json.isDigit,Bool.or_eq_true,Bool.and_eq_true,decide_eq_true_eq,beq_iff_eq,Char.le_def,
    UInt32.le_iff_toNat_le] at allowed
  rcases allowed with ((((⟨_,digit⟩ | rfl) | rfl) | rfl) | rfl) | rfl
  · exact Nat.lt_of_le_of_lt digit (by decide)
  all_goals decide

theorem marker_ascii (clock : Nat → Nat → Text) (ticks : Ticks clock) (n : Nat) : ∀ c ∈ markerLine clock n, c.toNat < 0x80 := by
  have rest : (',' :: (Json.quote (kindCode .output) ++ ',' :: (Json.quote truncationMarker ++ [']'])) ++ ['\n']).all
      (fun c => decide (c.toNat < 0x80)) = true := by decide
  intro c member
  rw [markerLine,castLine,List.cons_append,List.append_assoc] at member
  rcases List.mem_cons.mp member with rfl | later
  · decide
  · rcases List.mem_append.mp later with reading | fixed
    · exact numberChar_ascii c (List.all_eq_true.mp (Json.isNumber_chars _ (ticks n 1)) c reading)
    · exact of_decide_eq_true (List.all_eq_true.mp rest c fixed)

section Whole
variable {clock : Nat → Nat → Text} {timestamp : Nat} {sessionId : Text} {calls : List (CastStream × Text)}

theorem response_valid (file : Bytes) (valid : isValidSessionId sessionId = true) :
    sessionCastResponse (some file) sessionId = (200,sessionCast file) := by
  rw [sessionCastResponse,valid]
  rfl

theorem limits_equal : maxCastResponseBytes = maxCastBytes := rfl

theorem sessionCast_whole (text : Text) (fits : (encode text).length ≤ maxCastResponseBytes) : sessionCast (encode text) = text := by
  rw [sessionCast,List.take_of_length_le fits,fromUtf8Lossy_text]

-- The response ends inside the marker line when it has no room for it.
theorem sessionCast_cut (body marker : Text) (ascii : ∀ c ∈ marker, c.toNat < 0x80)
    (before : (encode body).length ≤ maxCastResponseBytes)
    (exceeds : maxCastResponseBytes < (encode body).length + (encode marker).length) :
    sessionCast (encode (body ++ marker)) ≠ body ++ marker := by
  rw [encode_ascii marker ascii,List.length_map] at exceeds
  have cut : (encode (body ++ marker)).take maxCastResponseBytes =
      encode (body ++ marker.take (maxCastResponseBytes - (encode body).length)) := by
    rw [encode_append,encode_append,List.take_append,List.take_of_length_le before,encode_ascii marker ascii,
      encode_ascii _ (fun c member => ascii c (List.mem_of_mem_take member)),List.map_take]
  rw [sessionCast,cut,fromUtf8Lossy_text]
  intro same
  have lengths := congrArg List.length (List.append_cancel_left same)
  rw [List.length_take] at lengths
  omega

theorem complete_served (valid : isValidSessionId sessionId = true)
    (capped : Capped clock timestamp sessionId calls calls.length (recordAll clock 0 calls (openRecorder timestamp sessionId))) :
    ServedWhole clock timestamp sessionId calls ∧ LeavesRoom clock timestamp sessionId calls := by
  have file : (recordAll clock 0 calls (openRecorder timestamp sessionId)).file =
      encode (textAfter clock timestamp sessionId calls calls.length) := by
    rw [capped.file,if_neg (Nat.lt_irrefl _),List.append_nil,textAfter_bytes]
  have held : (encode (textAfter clock timestamp sessionId calls calls.length)).length ≤ maxCastResponseBytes := by
    rw [textAfter_bytes,limits_equal]
    exact (capped.longest _ le_rfl).mpr le_rfl
  constructor
  · refine ⟨textAfter clock timestamp sessionId calls calls.length,file.symm,?_,?_⟩
    · rw [response_valid _ valid,file,sessionCast_whole _ held]
    · intro cut
      rw [capped.latch] at cut
      simp at cut
  · intro n before _ exceeds
    have fits := (capped.longest (n+1) before).mpr before
    omega

theorem cut_served (ticks : Ticks clock) (valid : isValidSessionId sessionId = true) (cut : n < calls.length)
    (capped : Capped clock timestamp sessionId calls n (recordAll clock 0 calls (openRecorder timestamp sessionId))) :
    ServedWhole clock timestamp sessionId calls ↔ LeavesRoom clock timestamp sessionId calls := by
  have file : (recordAll clock 0 calls (openRecorder timestamp sessionId)).file =
      encode (textAfter clock timestamp sessionId calls n ++ markerLine clock n) := by
    rw [capped.file,if_pos cut,encode_append,textAfter_bytes]
  have held : (fileAfter clock timestamp sessionId calls n).length ≤ maxCastBytes := (capped.longest n cut.le).mpr le_rfl
  have exceeds : maxCastBytes < (fileAfter clock timestamp sessionId calls (n+1)).length := by
    by_contra small
    have inside := (capped.longest (n+1) cut).mp (by omega)
    omega
  constructor
  · rintro ⟨body,same,answer,_⟩ m before small large
    have first : m = n := by
      have below := (capped.longest m before.le).mp small
      have above : ¬ m+1 ≤ n := fun inside => by
        have fits := (capped.longest (m+1) before).mpr inside
        omega
      omega
    subst first
    by_contra narrow
    rw [response_valid _ valid] at answer
    have served : sessionCast (encode (textAfter clock timestamp sessionId calls m ++ markerLine clock m)) = body := by
      rw [← file]
      exact congrArg Prod.snd answer
    have whole := encode_injective _ _ (same.trans file)
    refine sessionCast_cut _ _ (marker_ascii clock ticks m) ?_ ?_ (served.trans whole)
    · rw [textAfter_bytes]
      exact held
    · rw [textAfter_bytes]
      omega
  · intro room
    have fits := room n cut held exceeds
    have whole : (encode (textAfter clock timestamp sessionId calls n ++ markerLine clock n)).length ≤ maxCastResponseBytes := by
      rw [encode_append,List.length_append,textAfter_bytes]
      exact fits
    refine ⟨textAfter clock timestamp sessionId calls n ++ markerLine clock n,file.symm,?_,fun _ => ⟨clock n 1,List.suffix_append _ _⟩⟩
    rw [response_valid _ valid,file,sessionCast_whole _ whole]

theorem served_exact (ticks : Ticks clock) (valid : isValidSessionId sessionId = true)
    (fits : (headerLine timestamp sessionId).length ≤ maxCastBytes) :
    ServedWhole clock timestamp sessionId calls ↔ LeavesRoom clock timestamp sessionId calls := by
  obtain ⟨n,capped⟩ := recordAll_capped clock timestamp sessionId fits calls
  rcases Nat.lt_or_ge n calls.length with cut | all
  · exact cut_served ticks valid cut capped
  · have same : n = calls.length := Nat.le_antisymm capped.within all
    obtain ⟨served,room⟩ := complete_served valid (same ▸ capped)
    exact ⟨fun _ => room,fun _ => served⟩

end Whole

theorem recording_served_exact (clock : Nat → Nat → Text) (ticks : Ticks clock) (timestamp : UInt64) (sessionId : Text)
    (valid : isValidSessionId sessionId = true) (calls : List (CastStream × Text)) :
    ServedWhole clock timestamp.toNat sessionId calls ↔ LeavesRoom clock timestamp.toNat sessionId calls :=
  served_exact ticks valid (header_fits timestamp sessionId valid)

theorem stillClock_ticks : Ticks stillClock := fun _ _ => show Json.isNumber "0.5".toList = true by decide

def twelve : Text := "ab12cd34ef56".toList

theorem twelve_header : (headerLine 0 twelve).length = 150 := by decide +kernel

def letters (n : Nat) : Text := List.replicate n 'a'

theorem letters_length (n : Nat) : (encode (castLine "0.5".toList .output (letters n) ++ ['\n'])).length = n+13 := by
  have hex : (letters n).all isAsciiHexdigit = true := List.all_eq_true.mpr (fun c member => by
    rw [List.eq_of_mem_replicate member]
    decide)
  obtain ⟨escaped,bytes⟩ := hexdigits_plain (letters n) hex
  have front : (encode ('[' :: "0.5".toList ++ ',' :: Json.quote (kindCode .output) ++ [',','"'])).length = 10 := by decide
  have back : (encode ['"',']','\n']).length = 3 := by decide
  have parts : castLine "0.5".toList .output (letters n) ++ ['\n'] =
      ('[' :: "0.5".toList ++ ',' :: Json.quote (kindCode .output) ++ [',','"']) ++ letters n ++ ['"',']','\n'] := by
    rw [castLine,Json.quote,Json.quote,escaped]
    simp
  have many : (letters n).length = n := List.length_replicate
  rw [parts,encode_append,encode_append,List.length_append,List.length_append,front,back,bytes,many]
  omega

theorem first_length (n : Nat) (rest : List (CastStream × Text)) :
    (fileAfter stillClock 0 twelve ((.output,letters n) :: rest) 1).length = n+163 := by
  have next := fileAfter_next stillClock 0 twelve [] .output (letters n)
  rw [List.nil_append,List.length_nil,Nat.zero_add] at next
  have header : fileAfter stillClock 0 twelve [] 0 = headerLine 0 twelve := List.append_nil _
  have same : fileAfter stillClock 0 twelve ((.output,letters n) :: rest) 1 =
      fileAfter stillClock 0 twelve [(.output,letters n)] 1 := rfl
  have reading : stillClock 0 0 = "0.5".toList := rfl
  rw [same,next,header,List.length_append,twelve_header,reading,letters_length]
  omega

theorem second_length (n m : Nat) :
    (fileAfter stillClock 0 twelve [(.output,letters n),(.output,letters m)] 2).length = n+163+(m+13) := by
  have next := fileAfter_next stillClock 0 twelve [(.output,letters n)] .output (letters m)
  have first := first_length n []
  rw [List.length_singleton] at next
  have reading : stillClock 1 0 = "0.5".toList := rfl
  rw [← List.singleton_append,next,List.length_append,first,reading,letters_length]

-- The second record does not fit, and the first one leaves room for the marker.
def roomyRecording : List (CastStream × Text) := [(.output,letters (maxCastBytes-1000)),(.output,letters 2000)]

theorem cut_recording_served : (recordAll stillClock 0 roomyRecording (openRecorder 0 twelve)).truncated = true ∧
    ServedWhole stillClock 0 twelve roomyRecording := by
  have first : (fileAfter stillClock 0 twelve roomyRecording 1).length = maxCastBytes-1000+163 := first_length _ _
  have second : (fileAfter stillClock 0 twelve roomyRecording 2).length = maxCastBytes-1000+163+(2000+13) := second_length _ _
  constructor
  · have fits : (headerLine 0 twelve).length ≤ maxCastBytes := by
      rw [twelve_header]
      decide
    obtain ⟨n,capped⟩ := recordAll_capped stillClock 0 twelve fits roomyRecording
    have cut := capped.longest 2 (Nat.le_refl _)
    rw [second] at cut
    rw [capped.latch,decide_eq_true_iff]
    have count : roomyRecording.length = 2 := rfl
    unfold maxCastBytes at cut
    omega
  · have served : ServedWhole stillClock 0 twelve roomyRecording ↔ LeavesRoom stillClock 0 twelve roomyRecording :=
      recording_served_exact stillClock stillClock_ticks 0 twelve (by decide) roomyRecording
    rw [served]
    intro n before small exceeds
    have marker : (encode (markerLine stillClock 1)).length ≤ 100 := by decide
    have count : n < 2 := before
    rcases Nat.lt_or_ge n 1 with zero | one
    · obtain rfl : n = 0 := by omega
      rw [Nat.zero_add,first] at exceeds
      unfold maxCastBytes at exceeds
      omega
    · obtain rfl : n = 1 := by omega
      rw [first,limits_equal]
      unfold maxCastBytes
      omega

-- The first record ends at the limit to the byte; the second one is cut off.
def brimful : Text := List.replicate (maxCastBytes - 163) 'a'

def fullRecording : List (CastStream × Text) := [(.output,brimful),(.output,['b'])]

theorem brimful_fills : (fileAfter stillClock 0 twelve fullRecording 1).length = maxCastBytes := by
  have first := first_length (maxCastBytes-163) [(.output,['b'])]
  have fill : maxCastBytes-163+163 = maxCastBytes := by
    unfold maxCastBytes
    omega
  exact first.trans fill

theorem full_recording_over : maxCastBytes < (fileAfter stillClock 0 twelve fullRecording 2).length := by
  have next := fileAfter_next stillClock 0 twelve [(.output,brimful)] .output ['b']
  have first := fileAfter_earlier stillClock 0 twelve [(.output,brimful)] (.output,['b']) 1 le_rfl
  have both : [(CastStream.output,brimful)] ++ [(.output,['b'])] = fullRecording := rfl
  rw [both] at next first
  rw [List.length_singleton] at next
  have line := List.length_pos_of_ne_nil (encode_some '[' (castLine (stillClock 1 0) .output ['b'] ++ ['\n']).tail)
  rw [next,List.length_append,← first,brimful_fills]
  exact Nat.lt_add_of_pos_right line

theorem full_recording_cut : ¬ ServedWhole stillClock 0 twelve fullRecording := by
  intro served
  have header : (headerLine 0 twelve).length ≤ maxCastBytes := by
    rw [twelve_header]
    unfold maxCastBytes
    omega
  have room := (served_exact stillClock_ticks (by decide) header).mp served
  have marker := room 1 (by simp [fullRecording]) brimful_fills.le full_recording_over
  have line := List.length_pos_of_ne_nil (encode_some '[' (markerLine stillClock 1).tail)
  have whole : '[' :: (markerLine stillClock 1).tail = markerLine stillClock 1 := rfl
  rw [whole] at line
  rw [brimful_fills,limits_equal] at marker
  omega

end AegisHoneypot.RecordingLimit
