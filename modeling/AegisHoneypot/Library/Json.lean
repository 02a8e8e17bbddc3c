import AegisHoneypot.Library.Utf16Text

-- JSON as `serde_json` writes it and `JSON.parse` reads it: string literals and
-- numbers.
namespace Json
open Utf16Text

def hexDigit (n : Nat) : Char := "0123456789abcdef".toList.getD n '0'

def escapeChar (c : Char) : Text :=
  if c = '"' then ['\\','"']
  else if c = '\\' then ['\\','\\']
  else if c = '\x08' then ['\\','b']
  else if c = '\x0c' then ['\\','f']
  else if c = '\n' then ['\\','n']
  else if c = '\r' then ['\\','r']
  else if c = '\t' then ['\\','t']
  else if c.toNat < 0x20 then ['\\','u','0','0',hexDigit (c.toNat/16),hexDigit (c.toNat%16)]
  else [c]

def escape (text : Text) : Text := text.flatMap escapeChar

def quote (text : Text) : Text := '"' :: escape text ++ ['"']

def hexValue (c : Char) : Option Nat :=
  if '0' ≤ c ∧ c ≤ '9' then some (c.toNat-0x30)
  else if 'a' ≤ c ∧ c ≤ 'f' then some (c.toNat-0x61+10)
  else if 'A' ≤ c ∧ c ≤ 'F' then some (c.toNat-0x41+10)
  else none

def hexUnit (a b c d : Char) : Option UInt16 := do
  let first ← hexValue a
  let second ← hexValue b
  let third ← hexValue c
  let fourth ← hexValue d
  some (UInt16.ofNat (((first*16+second)*16+third)*16+fourth))

def unescapeChar : Char → Option UInt16
  | '"' => some 0x22
  | '\\' => some 0x5c
  | '/' => some 0x2f
  | 'b' => some 0x08
  | 'f' => some 0x0c
  | 'n' => some 0x0a
  | 'r' => some 0x0d
  | 't' => some 0x09
  | _ => none

def prepend (units : Units) (read : Units × Text) : Units × Text := (units ++ read.1,read.2)

-- A string literal after its opening quotation mark, and what follows it.
def readString : Text → Option (Units × Text)
  | [] => none
  | c :: rest =>
    if c = '"' then some ([],rest)
    else if c = '\\' then match rest with
      | 'u' :: a :: b :: c :: d :: later => (hexUnit a b c d).bind fun unit => (readString later).map (prepend [unit])
      | c :: later => (unescapeChar c).bind fun unit => (readString later).map (prepend [unit])
      | [] => none
    else if c.toNat < 0x20 then none
    else (readString rest).map (prepend (ofChar c))

def isDigit (c : Char) : Bool := '0' ≤ c && c ≤ '9'

def isNumberChar (c : Char) : Bool := isDigit c || c == '-' || c == '+' || c == '.' || c == 'e' || c == 'E'

def isDigits (text : Text) : Bool := !text.isEmpty && text.all isDigit

def isExponent : Text → Bool
  | [] => true
  | mark :: '+' :: rest => (mark == 'e' || mark == 'E') && isDigits rest
  | mark :: '-' :: rest => (mark == 'e' || mark == 'E') && isDigits rest
  | mark :: rest => (mark == 'e' || mark == 'E') && isDigits rest

def isFraction : Text → Bool
  | '.' :: rest => !(rest.takeWhile isDigit).isEmpty && isExponent (rest.dropWhile isDigit)
  | rest => isExponent rest

def isInteger : Text → Bool
  | ['0'] => true
  | '0' :: _ => false
  | text => isDigits text

def isUnsigned (text : Text) : Bool := isInteger (text.takeWhile isDigit) && isFraction (text.dropWhile isDigit)

def isNumber : Text → Bool
  | '-' :: rest => rest.all isNumberChar && isUnsigned rest
  | text => text.all isNumberChar && isUnsigned text

def readNumber (text : Text) : Option Text :=
  if isNumber (text.takeWhile isNumberChar) then some (text.dropWhile isNumberChar) else none

def readMark (mark : Char) : Text → Option Text
  | c :: rest => if c = mark then some rest else none
  | [] => none

theorem hexValue_digit : ∀ n < 16, hexValue (hexDigit n) = some n := by decide

theorem hexUnit_control (n : Nat) (small : n < 0x20) :
    hexUnit '0' '0' (hexDigit (n/16)) (hexDigit (n%16)) = some (UInt16.ofNat n) := by
  have zero : hexValue '0' = some 0 := by decide
  have high := hexValue_digit (n/16) (by omega)
  have low := hexValue_digit (n%16) (by omega)
  have whole : ((0*16+0)*16+n/16)*16+n%16 = n := by omega
  simp only [hexUnit,zero,high,low,Option.bind_eq_bind,Option.bind_some,whole]

theorem readString_end (rest : Text) : readString ('"' :: rest) = some ([],rest) := by
  rw [readString.eq_def]
  exact if_pos rfl

theorem readString_simple (c : Char) (unit : UInt16) (rest : Text) (known : unescapeChar c = some unit) :
    readString ('\\' :: c :: rest) = (readString rest).map (prepend [unit]) := by
  have simple : c ≠ 'u' := by
    rintro rfl
    cases known
  rw [readString,if_neg (by decide),if_pos rfl,known]
  · rfl
  · intro a b c' d later same
    exact absurd same simple

theorem readString_plain (c : Char) (rest : Text) (printed : ¬ c.toNat < 0x20) (mark : c ≠ '"') (escapes : c ≠ '\\') :
    readString (c :: rest) = (readString rest).map (prepend (ofChar c)) := by
  rw [readString.eq_def]
  dsimp only
  rw [if_neg mark,if_neg escapes,if_neg printed]

-- One character of the text is read back from what stands for it.
theorem readString_char (c : Char) (rest : Text) :
    readString (escapeChar c ++ rest) = (readString rest).map (prepend (ofChar c)) := by
  unfold escapeChar
  split
  · subst c
    exact readString_simple '"' 0x22 rest rfl
  rename_i mark
  split
  · subst c
    exact readString_simple '\\' 0x5c rest rfl
  rename_i escapes
  split
  · subst c
    exact readString_simple 'b' 0x08 rest rfl
  split
  · subst c
    exact readString_simple 'f' 0x0c rest rfl
  split
  · subst c
    exact readString_simple 'n' 0x0a rest rfl
  split
  · subst c
    exact readString_simple 'r' 0x0d rest rfl
  split
  · subst c
    exact readString_simple 't' 0x09 rest rfl
  split
  · rename_i small
    have single : ofChar c = [UInt16.ofNat c.toNat] := ofChar_small c (by omega)
    simp only [List.cons_append,List.nil_append]
    rw [readString,if_neg (by decide),if_pos rfl]
    simp only [hexUnit_control c.toNat small,single,Option.bind_some]
  · rename_i printed
    exact readString_plain c rest printed mark escapes

theorem readString_escape (text rest : Text) : readString (escape text ++ '"' :: rest) = some (ofText text,rest) := by
  induction text with
  | nil => exact readString_end rest
  | cons c later ih =>
    simp only [escape,List.flatMap_cons,List.append_assoc] at ih ⊢
    rw [readString_char,ih]
    rfl

theorem takeWhile_stops (keep : Char → Bool) (front rest : Text) (kept : front.all keep = true) (stops : keep c = false) :
    (front ++ c :: rest).takeWhile keep = front ∧ (front ++ c :: rest).dropWhile keep = c :: rest := by
  induction front with
  | nil => simp [stops]
  | cons first later ih =>
    simp only [List.all_cons,Bool.and_eq_true] at kept
    simp [kept.1,ih kept.2]

theorem isNumber_chars (number : Text) (valid : isNumber number = true) : number.all isNumberChar = true := by
  unfold isNumber at valid
  split at valid
  · simp only [Bool.and_eq_true] at valid
    rw [List.all_cons,valid.1]
    rfl
  · exact (Bool.and_eq_true _ _ ▸ valid).1

theorem readNumber_number (number rest : Text) (valid : isNumber number = true) (stops : isNumberChar c = false) :
    readNumber (number ++ c :: rest) = some (c :: rest) := by
  obtain ⟨taken,left⟩ := takeWhile_stops isNumberChar number rest (isNumber_chars number valid) stops
  unfold readNumber
  rw [taken,left,if_pos valid]

-- What a reader leaves is the end of what it was given, and it reads the same
-- whatever follows.
theorem readMark_some (read : readMark mark text = some rest) :
    rest <:+ text ∧ ∀ more, readMark mark (text ++ more) = some (rest ++ more) := by
  cases text with
  | nil => cases read
  | cons c later =>
    simp only [readMark,Option.ite_none_right_eq_some,Option.some.injEq] at read
    obtain ⟨rfl,rfl⟩ := read
    exact ⟨List.suffix_cons _ _,fun more => if_pos rfl⟩

theorem readNumber_some (read : readNumber text = some rest) (ends : rest ≠ []) :
    rest <:+ text ∧ ∀ more, readNumber (text ++ more) = some (rest ++ more) := by
  simp only [readNumber,Option.ite_none_right_eq_some,Option.some.injEq] at read
  obtain ⟨number,rfl⟩ := read
  refine ⟨List.dropWhile_suffix _,fun more => ?_⟩
  obtain ⟨c,later,left⟩ := List.exists_cons_of_ne_nil ends
  have stops : isNumberChar c = false := by
    have first := List.head_dropWhile_not isNumberChar ends
    simp only [left,List.head_cons] at first
    exact first
  have split : text ++ more = text.takeWhile isNumberChar ++ c :: (later ++ more) := by
    rw [← List.cons_append,← left,← List.append_assoc,List.takeWhile_append_dropWhile]
  rw [split,left]
  exact readNumber_number _ _ number stops

theorem readString_some (read : readString text = some (units,rest)) :
    rest <:+ text ∧ ∀ more, readString (text ++ more) = some (units,rest ++ more) := by
  induction text using readString.induct generalizing units rest with
  | case1 => cases read
  | case2 later =>
    rw [readString_end] at read
    cases read
    exact ⟨List.suffix_cons _ _,fun more => readString_end _⟩
  | case3 a b c d later _ ih =>
    rw [readString,if_neg (by decide),if_pos rfl] at read
    obtain ⟨unit,known,after⟩ := Option.bind_eq_some_iff.mp read
    obtain ⟨⟨inner,left⟩,next,same⟩ := Option.map_eq_some_iff.mp after
    cases same
    obtain ⟨suffix,further⟩ := ih next
    refine ⟨suffix.trans ⟨['\\','u',a,b,c,d],rfl⟩,fun more => ?_⟩
    simp only [List.cons_append]
    rw [readString,if_neg (by decide),if_pos rfl]
    simp only [known,Option.bind_some,further more]
    rfl
  | case4 c later simple _ ih =>
    rw [readString,if_neg (by decide),if_pos rfl] at read
    · obtain ⟨unit,known,after⟩ := Option.bind_eq_some_iff.mp read
      obtain ⟨⟨inner,left⟩,next,same⟩ := Option.map_eq_some_iff.mp after
      cases same
      obtain ⟨suffix,further⟩ := ih next
      refine ⟨suffix.trans ⟨['\\',c],rfl⟩,fun more => ?_⟩
      simp only [List.cons_append]
      rw [readString_simple c unit _ known,further more]
      rfl
    · exact simple
  | case5 _ =>
    rw [readString.eq_def] at read
    cases read
  | case6 c later mark escapes control =>
    rw [readString.eq_def] at read
    dsimp only at read
    rw [if_neg mark,if_neg escapes,if_pos control] at read
    cases read
  | case7 c later mark escapes printed ih =>
    rw [readString_plain c later printed mark escapes] at read
    obtain ⟨⟨inner,left⟩,next,same⟩ := Option.map_eq_some_iff.mp read
    cases same
    obtain ⟨suffix,further⟩ := ih next
    refine ⟨suffix.trans (List.suffix_cons _ _),fun more => ?_⟩
    rw [List.cons_append,readString_plain c _ printed mark escapes,further more]
    rfl

theorem hexDigit_printed : ∀ n < 16, hexDigit n ≠ '\n' := by decide

theorem escapeChar_line (c : Char) : '\n' ∉ escapeChar c := by
  unfold escapeChar
  split
  · decide
  split
  · decide
  split
  · decide
  split
  · decide
  split
  · decide
  rename_i other
  split
  · decide
  split
  · decide
  split
  · rename_i small
    have high := hexDigit_printed (c.toNat/16) (by omega)
    have low := hexDigit_printed (c.toNat%16) (by omega)
    simp [high.symm,low.symm]
  · simp [Ne.symm other]

-- A literal stays on one line.
theorem quote_line (text : Text) : '\n' ∉ quote text := by
  have inside : '\n' ∉ escape text := by
    intro held
    obtain ⟨c,_,escaped⟩ := List.mem_flatMap.mp held
    exact escapeChar_line c escaped
  simp [quote,inside]

end Json
