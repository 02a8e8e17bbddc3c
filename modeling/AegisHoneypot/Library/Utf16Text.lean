import AegisHoneypot.Library.Text

-- Text as JavaScript keeps it: a list of UTF-16 code units.
namespace Utf16Text

abbrev Units := List UInt16

def ofChar (c : Char) : Units :=
  if c.toNat < 0x10000 then [UInt16.ofNat c.toNat]
  else [UInt16.ofNat (0xD800+(c.toNat-0x10000)/0x400),UInt16.ofNat (0xDC00+(c.toNat-0x10000)%0x400)]

def ofText (text : Text) : Units := text.flatMap ofChar

def isHigh (unit : UInt16) : Bool := decide (0xD800 ≤ unit.toNat ∧ unit.toNat < 0xDC00)

def isLow (unit : UInt16) : Bool := decide (0xDC00 ≤ unit.toNat ∧ unit.toNat < 0xE000)

-- The iteration of `for (const ch of text)`: by code points, and by single
-- units where a surrogate stands alone.
def codePoints : Units → List Units
  | [] => []
  | [single] => [[single]]
  | first :: second :: rest =>
    if isHigh first && isLow second then [first,second] :: codePoints rest else [first] :: codePoints (second :: rest)

-- Each unit as a character of its own.
def toText (units : Units) : Text := units.map (fun unit => Char.ofNat unit.toNat)

-- `String::from_utf16`: none where a surrogate stands alone.
def fromUtf16 : Units → Option Text
  | [] => some []
  | [single] => if isHigh single || isLow single then none else some [Char.ofNat single.toNat]
  | first :: second :: rest =>
    if isHigh first then
      if isLow second then (fromUtf16 rest).map (Char.ofNat (0x10000+(first.toNat-0xD800)*0x400+(second.toNat-0xDC00)) :: ·)
      else none
    else if isLow first then none
    else (fromUtf16 (second :: rest)).map (Char.ofNat first.toNat :: ·)

theorem unit_toNat {n : Nat} (small : n < 0x10000) : (UInt16.ofNat n).toNat = n :=
  Nat.mod_eq_of_lt small

theorem char_range (c : Char) : c.toNat < 0xD800 ∨ (0xE000 ≤ c.toNat ∧ c.toNat < 0x110000) := by
  have valid := c.valid
  rcases valid with low | ⟨above,below⟩
  · exact Or.inl low
  · exact Or.inr ⟨above,below⟩

theorem codePoints_single (unit : UInt16) (plain : isHigh unit = false) (rest : Units) :
    codePoints (unit :: rest) = [unit] :: codePoints rest := by
  cases rest with
  | nil => rfl
  | cons second rest =>
    rw [codePoints,plain]
    rfl

theorem codePoints_char (c : Char) (rest : Units) : codePoints (ofChar c ++ rest) = ofChar c :: codePoints rest := by
  have range := char_range c
  unfold ofChar
  split
  · rename_i small
    apply codePoints_single
    simp only [isHigh,unit_toNat small,decide_eq_false_iff_not]
    omega
  · have high : (UInt16.ofNat (0xD800+(c.toNat-0x10000)/0x400)).toNat = 0xD800+(c.toNat-0x10000)/0x400 :=
      unit_toNat (by omega)
    have low : (UInt16.ofNat (0xDC00+(c.toNat-0x10000)%0x400)).toNat = 0xDC00+(c.toNat-0x10000)%0x400 :=
      unit_toNat (by omega)
    have paired : (isHigh (UInt16.ofNat (0xD800+(c.toNat-0x10000)/0x400)) &&
        isLow (UInt16.ofNat (0xDC00+(c.toNat-0x10000)%0x400))) = true := by
      simp only [isHigh,isLow,high,low,Bool.and_eq_true,decide_eq_true_eq]
      omega
    simp only [List.cons_append,List.nil_append,codePoints,paired,if_true]

theorem codePoints_text (text : Text) (rest : Units) :
    codePoints (ofText text ++ rest) = text.map ofChar ++ codePoints rest := by
  induction text with
  | nil => rfl
  | cons c later ih =>
    simp only [ofText,List.flatMap_cons,List.append_assoc,List.map_cons,List.cons_append] at ih ⊢
    rw [codePoints_char,ih]

theorem ofText_append (left right : Text) : ofText (left ++ right) = ofText left ++ ofText right :=
  List.flatMap_append ..

theorem ofText_flatten (texts : List Text) : ofText texts.flatten = (texts.map ofText).flatten := by
  induction texts with
  | nil => rfl
  | cons first rest ih =>
    rw [List.flatten_cons,ofText_append,ih]
    rfl

theorem toText_append (left right : Units) : toText (left ++ right) = toText left ++ toText right :=
  List.map_append ..

theorem ofChar_small (c : Char) (small : c.toNat < 0x10000) : ofChar c = [UInt16.ofNat c.toNat] :=
  if_pos small

theorem toText_ofText (text : Text) (small : ∀ c ∈ text, c.toNat < 0x10000) : toText (ofText text) = text := by
  induction text with
  | nil => rfl
  | cons c rest ih =>
    rw [List.forall_mem_cons] at small
    obtain ⟨first,later⟩ := small
    simp only [ofText,List.flatMap_cons] at ih ⊢
    rw [toText_append,ih later,ofChar_small c first]
    simp only [toText,List.map_cons,List.map_nil,unit_toNat first,Char.ofNat_toNat,List.singleton_append]

theorem ofText_length (text : Text) (small : ∀ c ∈ text, c.toNat < 0x10000) : (ofText text).length = text.length := by
  have same := congrArg List.length (toText_ofText text small)
  rw [← same]
  exact (List.length_map _).symm

theorem fromUtf16_single (unit : UInt16) (plain : isHigh unit = false) (single : isLow unit = false) (rest : Units) :
    fromUtf16 (unit :: rest) = (fromUtf16 rest).map (Char.ofNat unit.toNat :: ·) := by
  cases rest with
  | nil => simp [fromUtf16,plain,single]
  | cons second rest =>
    rw [fromUtf16,plain,single]
    rfl

theorem fromUtf16_char (c : Char) (rest : Units) : fromUtf16 (ofChar c ++ rest) = (fromUtf16 rest).map (c :: ·) := by
  have range := char_range c
  unfold ofChar
  split
  · rename_i small
    have plain : isHigh (UInt16.ofNat c.toNat) = false := by
      simp only [isHigh,unit_toNat small,decide_eq_false_iff_not]
      omega
    have single : isLow (UInt16.ofNat c.toNat) = false := by
      simp only [isLow,unit_toNat small,decide_eq_false_iff_not]
      omega
    rw [List.singleton_append,fromUtf16_single _ plain single,unit_toNat small,Char.ofNat_toNat]
  · have high : (UInt16.ofNat (0xD800+(c.toNat-0x10000)/0x400)).toNat = 0xD800+(c.toNat-0x10000)/0x400 :=
      unit_toNat (by omega)
    have low : (UInt16.ofNat (0xDC00+(c.toNat-0x10000)%0x400)).toNat = 0xDC00+(c.toNat-0x10000)%0x400 :=
      unit_toNat (by omega)
    have first : isHigh (UInt16.ofNat (0xD800+(c.toNat-0x10000)/0x400)) = true := by
      simp only [isHigh,high,decide_eq_true_eq]
      omega
    have second : isLow (UInt16.ofNat (0xDC00+(c.toNat-0x10000)%0x400)) = true := by
      simp only [isLow,low,decide_eq_true_eq]
      omega
    have whole : 0x10000+(0xD800+(c.toNat-0x10000)/0x400-0xD800)*0x400+(0xDC00+(c.toNat-0x10000)%0x400-0xDC00) = c.toNat := by
      omega
    rw [List.cons_append,List.singleton_append,fromUtf16,if_pos first,if_pos second,high,low,whole,Char.ofNat_toNat]

theorem fromUtf16_ofText (text : Text) : fromUtf16 (ofText text) = some text := by
  induction text with
  | nil => rfl
  | cons c rest ih =>
    simp only [ofText,List.flatMap_cons] at ih ⊢
    rw [fromUtf16_char,ih]
    rfl

end Utf16Text
