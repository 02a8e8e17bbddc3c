import AegisHoneypot.AddressText
import AegisHoneypot.RecordingLimit
import AegisHoneypot.Library.FloatText

-- What the collector writes to the console of an operator: text that an
-- attacker chose, made free of control characters and still readable back.
namespace AegisHoneypot.ConsoleEscaping
open Utf8Text AddressText FloatText RecordingLimit
open Json (hexDigit hexValue)

-- The category `Cc`: both blocks of controls and DEL.
def isControl (c : Char) : Bool := c.toNat < 0x20 || (0x7f ≤ c.toNat && c.toNat ≤ 0x9f)

-- `\x{b:02x}`
def escapeByte (byte : UInt8) : Text := ['\\','x',hexDigit (byte.toNat/16),hexDigit (byte.toNat%16)]

def sanitizeChar (c : Char) : Text :=
  if c = '\\' then ['\\','\\']
  else if isControl c then (encodeChar c).flatMap escapeByte
  else [c]

def sanitize (s : Text) : Text := s.flatMap sanitizeChar

-- The line that `eprintln!` ends.
def printEvent : TelemetryEvent → Text
  | .credentialHarvest e =>
    let pw := e.password.getD "<none>"
    "\x1b[93m[!] CRED: ".toList ++ toText e.ip ++ " | ".toList ++ sanitize e.username.toList ++ ":".toList ++
      sanitize pw.toList ++ "\x1b[0m".toList
  | .commandRun e =>
    "\x1b[96m[CMD] [".toList ++ toText e.ip ++ "|".toList ++ e.sessionId.toList ++ "]: ".toList ++
      sanitize e.command.toList ++ "\x1b[0m".toList
  | .payloadCaptured e =>
    let short := e.sha256.toList.take 16
    "\x1b[91m[PAYLOAD] ".toList ++ toText e.ip ++ " -> ".toList ++ short ++ " (".toList ++ decimal e.sizeBytes ++
      " bytes) -> ".toList ++ sanitize e.quarantinePath.toList ++ "\x1b[0m".toList
  | .sessionStart e =>
    "\x1b[92m[SESSION START] ".toList ++ toText e.ip ++ " -> ".toList ++ e.sessionId.toList ++ "\x1b[0m".toList
  | .sessionEnd e =>
    "\x1b[90m[SESSION END] ".toList ++ e.sessionId.toList ++ " (".toList ++ formatOne e.durationSecs ++ "s)".toList ++
      "\x1b[0m".toList
  | .syscallExecve e =>
    "\x1b[35m[EXECVE] pid=".toList ++ decimal e.pid.toNat ++ " ".toList ++ sanitize e.filename.toList ++ " ".toList ++
      sanitize (Text.join " " (e.argv.map String.toList)) ++ "\x1b[0m".toList
  | .syscallConnect e =>
    "\x1b[35m[CONNECT] pid=".toList ++ decimal e.pid.toNat ++ " -> ".toList ++ toText e.destIp ++ ":".toList ++
      decimal e.destPort.toNat ++ "\x1b[0m".toList
  | .syscallMemfdCreate e =>
    "\x1b[31m[MEMFD] pid=".toList ++ decimal e.pid.toNat ++ " name='".toList ++ sanitize e.name.toList ++
      "' -- fileless ELF!".toList ++ "\x1b[0m".toList

section Reading

-- The way back: the bytes that the text stands for, read as UTF-8.
def byteOf (high low : Char) : UInt8 := .ofNat ((hexValue high).getD 0*16+(hexValue low).getD 0)

def unescape : Text → Bytes
  | '\\' :: '\\' :: rest => 0x5c :: unescape rest
  | '\\' :: 'x' :: high :: low :: rest => byteOf high low :: unescape rest
  | c :: rest => encodeChar c ++ unescape rest
  | [] => []

def restore (shown : Text) : Option Text := fromUtf8 (unescape shown)

theorem unescape_plain (c : Char) (plain : c ≠ '\\') (rest : Text) : unescape (c :: rest) = encodeChar c ++ unescape rest := by
  rw [unescape]
  · intro later same
    exact absurd same plain
  · intro high low later same
    exact absurd same plain

theorem byteOf_digits (byte : UInt8) : byteOf (hexDigit (byte.toNat/16)) (hexDigit (byte.toNat%16)) = byte := by
  have bound := byte.toNat_lt
  have high := Json.hexValue_digit (byte.toNat/16) (by omega)
  have low := Json.hexValue_digit (byte.toNat%16) (by omega)
  unfold byteOf
  rw [high,low,Option.getD_some,Option.getD_some,Nat.div_add_mod',UInt8.ofNat_toNat]

theorem unescape_bytes (bytes : Bytes) (rest : Text) :
    unescape (bytes.flatMap escapeByte ++ rest) = bytes ++ unescape rest := by
  induction bytes with
  | nil => rfl
  | cons byte later ih =>
    rw [List.flatMap_cons,List.append_assoc]
    change byteOf _ _ :: unescape (later.flatMap escapeByte ++ rest) = _
    rw [byteOf_digits,ih,List.cons_append]

theorem unescape_char (c : Char) (rest : Text) : unescape (sanitizeChar c ++ rest) = encodeChar c ++ unescape rest := by
  unfold sanitizeChar
  split
  · rename_i backslash
    rw [backslash]
    rfl
  · rename_i plain
    split
    · exact unescape_bytes (encodeChar c) rest
    · exact unescape_plain c plain rest

-- The escapes stand side by side, and each is read up to its own end.
theorem unescape_sanitize (s : Text) : unescape (sanitize s) = encode s := by
  induction s with
  | nil => rfl
  | cons c rest ih =>
    rw [sanitize,List.flatMap_cons,unescape_char]
    exact congrArg (encodeChar c ++ ·) ih

theorem restore_sanitize (s : Text) : restore (sanitize s) = some s := by
  unfold restore
  rw [unescape_sanitize]
  exact fromUtf8_iff.mpr rfl

theorem sanitize_injective (left right : Text) (alike : sanitize left = sanitize right) : left = right := by
  have read := restore_sanitize left
  rw [alike,restore_sanitize right] at read
  exact (Option.some.inj read).symm

end Reading

section Printing

def Clean (text : Text) : Prop := ∀ c ∈ text, isControl c = false

theorem clean_literal (text : Text) (all : text.all (fun c => !isControl c) = true) : Clean text := by
  intro c member
  simpa using List.all_eq_true.mp all c member

theorem Clean.append (left : Clean first) (right : Clean second) : Clean (first ++ second) := by
  intro c member
  rcases List.mem_append.mp member with inFirst | inSecond
  · exact left c inFirst
  · exact right c inSecond

theorem hexDigit_clean : ∀ n < 16, isControl (hexDigit n) = false := by decide

theorem escapeByte_clean (byte : UInt8) : Clean (escapeByte byte) := by
  have bound := byte.toNat_lt
  have high := hexDigit_clean (byte.toNat/16) (by omega)
  have low := hexDigit_clean (byte.toNat%16) (by omega)
  intro c member
  simp only [escapeByte,List.mem_cons,List.not_mem_nil,or_false] at member
  rcases member with rfl | rfl | rfl | rfl
  · rfl
  · rfl
  · exact high
  · exact low

theorem sanitizeChar_clean (c : Char) : Clean (sanitizeChar c) := by
  unfold sanitizeChar
  split
  · exact clean_literal _ rfl
  · split
    · intro d member
      obtain ⟨byte,_,inside⟩ := List.mem_flatMap.mp member
      exact escapeByte_clean byte d inside
    · rename_i plain
      intro d member
      rw [List.mem_singleton.mp member]
      exact Bool.eq_false_iff.mpr plain

theorem sanitize_clean (s : Text) : Clean (sanitize s) := by
  intro d member
  obtain ⟨c,_,inside⟩ := List.mem_flatMap.mp member
  exact sanitizeChar_clean c d inside

theorem numeral_clean (plain : Numeral text) : Clean text := by
  intro c member
  have range := numeral_range c (plain c member)
  simp only [isControl,Bool.or_eq_false_iff,Bool.and_eq_false_iff,decide_eq_false_iff_not]
  omega

theorem hexdigits_clean (hex : text.all isAsciiHexdigit = true) : Clean text := by
  intro c member
  have digit := List.all_eq_true.mp hex c member
  simp only [isAsciiHexdigit,Bool.or_eq_true,Bool.and_eq_true,decide_eq_true_eq,Char.le_def,UInt32.le_iff_toNat_le] at digit
  change ((48 ≤ c.toNat ∧ c.toNat ≤ 57) ∨ (97 ≤ c.toNat ∧ c.toNat ≤ 102)) ∨ (65 ≤ c.toNat ∧ c.toNat ≤ 70) at digit
  simp only [isControl,Bool.or_eq_false_iff,Bool.and_eq_false_iff,decide_eq_false_iff_not]
  omega

theorem join_clean (separator : String) (plain : Clean separator.toList) (pieces : List Text)
    (each : ∀ piece ∈ pieces, Clean piece) : Clean (Text.join separator pieces) := by
  induction pieces with
  | nil => exact clean_literal _ rfl
  | cons first rest ih =>
    obtain ⟨head,tail⟩ := List.forall_mem_cons.mp each
    cases rest with
    | nil => exact head
    | cons second later => exact (head.append plain).append (ih tail)

theorem decimal_clean (n : Nat) : Clean (decimal n) := numeral_clean (toDigits_numeral (by omega) (by omega) n)

theorem hexadecimal_clean (n : Nat) : Clean (hexadecimal n) := numeral_clean (toDigits_numeral (by omega) (by omega) n)

theorem v4Text_clean (a b c d : UInt8) : Clean (v4Text a b c d) := by
  refine join_clean "." (clean_literal _ rfl) _ (fun piece member => ?_)
  simp only [List.mem_cons,List.not_mem_nil,or_false] at member
  rcases member with rfl | rfl | rfl | rfl <;> exact decimal_clean _

theorem subslice_clean (segments : List Nat) : Clean (subslice segments) := by
  refine join_clean ":" (clean_literal _ rfl) _ (fun piece member => ?_)
  obtain ⟨segment,_,rfl⟩ := List.mem_map.mp member
  exact hexadecimal_clean segment

theorem segmentsText_clean (segments : List Nat) : Clean (segmentsText segments) := by
  unfold segmentsText
  dsimp only
  split
  · exact ((subslice_clean _).append (clean_literal _ rfl)).append (subslice_clean _)
  · exact subslice_clean _

theorem toText_clean (ip : IpAddr) : Clean (toText ip) := by
  cases ip with
  | v4 a b c d => exact v4Text_clean a b c d
  | v6 high low =>
    rw [toText]
    split
    · exact (clean_literal _ rfl).append (v4Text_clean _ _ _ _)
    · exact segmentsText_clean _

-- The colour that a kind of event is printed in, the colour that ends it, and the
-- digest that one kind prints as it stands.
def colour : TelemetryEvent → Text
  | .credentialHarvest _ => "\x1b[93m".toList
  | .commandRun _ => "\x1b[96m".toList
  | .payloadCaptured _ => "\x1b[91m".toList
  | .sessionStart _ => "\x1b[92m".toList
  | .sessionEnd _ => "\x1b[90m".toList
  | .syscallExecve _ => "\x1b[35m".toList
  | .syscallConnect _ => "\x1b[35m".toList
  | .syscallMemfdCreate _ => "\x1b[31m".toList

def reset : Text := "\x1b[0m".toList

def digest : TelemetryEvent → Text
  | .payloadCaptured e => e.sha256.toList
  | _ => []

theorem printEvent_clean (event : TelemetryEvent) (identity : event.sessionId.toList.all isAsciiHexdigit = true)
    (hex : (digest event).all isAsciiHexdigit = true) :
    ∃ body, printEvent event = colour event ++ body ++ reset ∧ Clean body := by
  have literal := clean_literal
  cases event with
  | credentialHarvest e =>
    refine ⟨"[!] CRED: ".toList ++ toText e.ip ++ " | ".toList ++ sanitize e.username.toList ++ ":".toList ++
      sanitize (e.password.getD "<none>").toList,rfl,?_⟩
    exact (((((literal _ rfl).append (toText_clean _)).append (literal _ rfl)).append (sanitize_clean _)).append
      (literal _ rfl)).append (sanitize_clean _)
  | commandRun e =>
    refine ⟨"[CMD] [".toList ++ toText e.ip ++ "|".toList ++ e.sessionId.toList ++ "]: ".toList ++ sanitize e.command.toList,
      rfl,?_⟩
    exact (((((literal _ rfl).append (toText_clean _)).append (literal _ rfl)).append (hexdigits_clean identity)).append
      (literal _ rfl)).append (sanitize_clean _)
  | payloadCaptured e =>
    have short : Clean (e.sha256.toList.take 16) := fun c member => hexdigits_clean hex c (List.mem_of_mem_take member)
    refine ⟨"[PAYLOAD] ".toList ++ toText e.ip ++ " -> ".toList ++ e.sha256.toList.take 16 ++ " (".toList ++
      decimal e.sizeBytes ++ " bytes) -> ".toList ++ sanitize e.quarantinePath.toList,rfl,?_⟩
    exact (((((((literal _ rfl).append (toText_clean _)).append (literal _ rfl)).append short).append (literal _ rfl)).append
      (decimal_clean _)).append (literal _ rfl)).append (sanitize_clean _)
  | sessionStart e =>
    refine ⟨"[SESSION START] ".toList ++ toText e.ip ++ " -> ".toList ++ e.sessionId.toList,rfl,?_⟩
    exact (((literal _ rfl).append (toText_clean _)).append (literal _ rfl)).append (hexdigits_clean identity)
  | sessionEnd e =>
    refine ⟨"[SESSION END] ".toList ++ e.sessionId.toList ++ " (".toList ++ formatOne e.durationSecs ++ "s)".toList,rfl,?_⟩
    exact ((((literal _ rfl).append (hexdigits_clean identity)).append (literal _ rfl)).append
      (numeral_clean (formatOne_numeral _))).append (literal _ rfl)
  | syscallExecve e =>
    refine ⟨"[EXECVE] pid=".toList ++ decimal e.pid.toNat ++ " ".toList ++ sanitize e.filename.toList ++ " ".toList ++
      sanitize (Text.join " " (e.argv.map String.toList)),rfl,?_⟩
    exact (((((literal _ rfl).append (decimal_clean _)).append (literal _ rfl)).append (sanitize_clean _)).append
      (literal _ rfl)).append (sanitize_clean _)
  | syscallConnect e =>
    refine ⟨"[CONNECT] pid=".toList ++ decimal e.pid.toNat ++ " -> ".toList ++ toText e.destIp ++ ":".toList ++
      decimal e.destPort.toNat,rfl,?_⟩
    exact (((((literal _ rfl).append (decimal_clean _)).append (literal _ rfl)).append (toText_clean _)).append
      (literal _ rfl)).append (decimal_clean _)
  | syscallMemfdCreate e =>
    refine ⟨"[MEMFD] pid=".toList ++ decimal e.pid.toNat ++ " name='".toList ++ sanitize e.name.toList ++
      "' -- fileless ELF!".toList,rfl,?_⟩
    exact ((((literal _ rfl).append (decimal_clean _)).append (literal _ rfl)).append (sanitize_clean _)).append (literal _ rfl)

-- Escaping loses nothing and lets no control character through, so that a line
-- has none but those of the two colours around it.
theorem console_escaped (event : TelemetryEvent) (identity : event.sessionId.toList.all isAsciiHexdigit = true)
    (hex : (digest event).all isAsciiHexdigit = true) :
    (∀ s, Clean (sanitize s) ∧ restore (sanitize s) = some s) ∧ Function.Injective sanitize ∧
      ∃ body, printEvent event = colour event ++ body ++ reset ∧ Clean body :=
  ⟨fun s => ⟨sanitize_clean s,restore_sanitize s⟩,sanitize_injective,printEvent_clean event identity hex⟩

-- A password that spells an escape, and a name with the byte it would be one for.
def spoofed : CredentialHarvestEvent := ⟨0,"a1b2c3d4e5f6",.v4 192 0 2 7,"root\x1b[2J",some "\\x1b",.password⟩

theorem console_escaped_spoofed : ∃ body,
    printEvent (.credentialHarvest spoofed) = "\x1b[93m".toList ++ body ++ "\x1b[0m".toList ∧ Clean body ∧
      body = "[!] CRED: 192.0.2.7 | root\\x1b[2J:\\\\x1b".toList := by
  obtain ⟨_,_,body,line,clean⟩ := console_escaped (.credentialHarvest spoofed) (by decide) (by decide)
  refine ⟨body,line,clean,?_⟩
  have shown : printEvent (.credentialHarvest spoofed) =
      "\x1b[93m".toList ++ "[!] CRED: 192.0.2.7 | root\\x1b[2J:\\\\x1b".toList ++ "\x1b[0m".toList := by decide
  exact List.append_cancel_left (List.append_cancel_right (line.symm.trans shown))

end Printing
end AegisHoneypot.ConsoleEscaping
