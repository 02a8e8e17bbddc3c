import AegisHoneypot.Library.Text
import AegisHoneypot.Library.LineStream

-- UTF-8 text as bytes: the encoder, the lossy decoder of the standard library
-- as a machine that reads one byte at a time, and the lines of a text.
namespace Utf8Text

abbrev Bytes := List UInt8

def newline : UInt8 := 10

def encodeChar (c : Char) : Bytes :=
  let v := c.toNat
  if v < 0x80 then [.ofNat v]
  else if v < 0x800 then [.ofNat (0xC0 + v/64),.ofNat (0x80 + v%64)]
  else if v < 0x10000 then [.ofNat (0xE0 + v/4096),.ofNat (0x80 + v/64%64),.ofNat (0x80 + v%64)]
  else [.ofNat (0xF0 + v/262144),.ofNat (0x80 + v/4096%64),.ofNat (0x80 + v/64%64),.ofNat (0x80 + v%64)]

def encode (text : Text) : Bytes := text.flatMap encodeChar

-- A sequence begun: what it says so far, how many bytes are missing, and the
-- range of the next one. The first continuation byte has a narrower range after
-- the lead bytes whose sequences could be overlong, surrogates or too large.
structure Pending where
  value : Nat
  missing : Nat
  low : Nat
  high : Nat
  deriving DecidableEq, Repr

def replacement : Char := Char.ofNat 0xFFFD

inductive Lead where
  | char (c : Char)
  | sequence (pending : Pending)
  | invalid
  deriving DecidableEq

def lead (b : Nat) : Lead :=
  if b < 0x80 then .char (Char.ofNat b)
  else if b < 0xC2 then .invalid
  else if b < 0xE0 then .sequence ⟨b-0xC0,1,0x80,0xBF⟩
  else if b = 0xE0 then .sequence ⟨0,2,0xA0,0xBF⟩
  else if b = 0xED then .sequence ⟨0xD,2,0x80,0x9F⟩
  else if b < 0xF0 then .sequence ⟨b-0xE0,2,0x80,0xBF⟩
  else if b = 0xF0 then .sequence ⟨0,3,0x90,0xBF⟩
  else if b = 0xF4 then .sequence ⟨4,3,0x80,0x8F⟩
  else if b < 0xF4 then .sequence ⟨b-0xF0,3,0x80,0xBF⟩
  else .invalid

def start (b : Nat) : Text × Option Pending :=
  match lead b with
  | .char c => ([c],none)
  | .sequence pending => ([],some pending)
  | .invalid => ([replacement],none)

-- A byte outside the range closes the sequence with one replacement character
-- and is then read afresh.
def feed (state : Option Pending) (byte : UInt8) : Text × Option Pending :=
  match state with
  | none => start byte.toNat
  | some pending =>
    if pending.low ≤ byte.toNat ∧ byte.toNat ≤ pending.high then
      let value := pending.value*64 + (byte.toNat-0x80)
      if pending.missing ≤ 1 then ([Char.ofNat value],none) else ([],some ⟨value,pending.missing-1,0x80,0xBF⟩)
    else (replacement :: (start byte.toNat).1,(start byte.toNat).2)

def decodeFrom : Option Pending → Bytes → Text
  | none,[] => []
  | some _,[] => [replacement]
  | state,byte :: rest => (feed state byte).1 ++ decodeFrom (feed state byte).2 rest

-- `String::from_utf8_lossy`
def fromUtf8Lossy (bytes : Bytes) : Text := decodeFrom none bytes

-- `String::from_utf8`, the strict reading behind `read_to_string`: the lossy
-- one is faithful exactly where it can be undone.
def fromUtf8 (bytes : Bytes) : Option Text :=
  let text := fromUtf8Lossy bytes
  if encode text = bytes then some text else none

def isNewline (c : Char) : Bool := c == '\n'

-- One piece of `str::lines`: a carriage return goes only with its line feed.
def stripLine (piece : Text) : Text :=
  match piece.getLast? with
  | some '\n' => if piece.dropLast.getLast? = some '\r' then piece.dropLast.dropLast else piece.dropLast
  | _ => piece

def lines (text : Text) : List Text := (LineStream.splitInclusive isNewline text).map stripLine

theorem byte_toNat {n : Nat} (small : n < 256) : (UInt8.ofNat n).toNat = n :=
  UInt8.toNat_ofNat_of_lt' (by simpa [UInt8.size] using small)

theorem feed_more {value missing low high digit : Nat} (bounded : digit < 64) (above : low ≤ 0x80 + digit)
    (below : 0x80 + digit ≤ high) :
    feed (some ⟨value,missing+2,low,high⟩) (.ofNat (0x80 + digit)) =
      ([],some ⟨value*64 + digit,missing+1,0x80,0xBF⟩) := by
  simp only [feed,byte_toNat (show 0x80 + digit < 256 by omega),above,below,and_self,if_true]
  rw [if_neg (by omega),Nat.add_sub_cancel_left]
  rfl

theorem feed_last {value digit : Nat} (bounded : digit < 64) :
    feed (some ⟨value,1,0x80,0xBF⟩) (.ofNat (0x80 + digit)) = ([Char.ofNat (value*64 + digit)],none) := by
  simp only [feed,byte_toNat (show 0x80 + digit < 256 by omega)]
  rw [if_pos (by omega),if_pos (by omega),Nat.add_sub_cancel_left]

theorem feed_lead_two {top : Nat} (above : 2 ≤ top) (below : top < 32) :
    feed none (.ofNat (0xC0 + top)) = ([],some ⟨top,1,0x80,0xBF⟩) := by
  simp only [feed,byte_toNat (show 0xC0 + top < 256 by omega),start,lead]
  rw [if_neg (by omega),if_neg (by omega),if_pos (by omega),Nat.add_sub_cancel_left]

theorem feed_lead_three {top : Nat} (below : top < 16) :
    feed none (.ofNat (0xE0 + top)) =
      ([],some ⟨top,2,if top = 0 then 0xA0 else 0x80,if top = 13 then 0x9F else 0xBF⟩) := by
  have table : ∀ top < 16, lead (0xE0 + top) =
      .sequence ⟨top,2,if top = 0 then 0xA0 else 0x80,if top = 13 then 0x9F else 0xBF⟩ := by decide
  simp only [feed,byte_toNat (show 0xE0 + top < 256 by omega),start,table top below]

theorem feed_lead_four {top : Nat} (below : top < 5) :
    feed none (.ofNat (0xF0 + top)) =
      ([],some ⟨top,3,if top = 0 then 0x90 else 0x80,if top = 4 then 0x8F else 0xBF⟩) := by
  have table : ∀ top < 5, lead (0xF0 + top) =
      .sequence ⟨top,3,if top = 0 then 0x90 else 0x80,if top = 4 then 0x8F else 0xBF⟩ := by decide
  simp only [feed,byte_toNat (show 0xF0 + top < 256 by omega),start,table top below]

-- One case for each length of the encoding; the scalar value excludes exactly
-- the sequences that the narrowed ranges refuse.
theorem decode_char (c : Char) (rest : Bytes) :
    decodeFrom none (encodeChar c ++ rest) = c :: decodeFrom none rest := by
  have scalar : c.toNat < 0xD800 ∨ 0xDFFF < c.toNat ∧ c.toNat < 0x110000 := c.valid
  have back : Char.ofNat c.toNat = c := Char.ofNat_toNat c
  unfold encodeChar
  generalize c.toNat = v at scalar back
  dsimp only
  split
  · rename_i ascii
    simp [decodeFrom,feed,start,lead,byte_toNat (show v < 256 by omega),ascii,back]
  · split
    · have value : v/64*64 + v%64 = v := by omega
      simp only [List.cons_append,List.nil_append,decodeFrom,feed_lead_two (show 2 ≤ v/64 by omega) (by omega),
        feed_last (show v%64 < 64 by omega),value,back]
    · split
      · have value : (v/4096*64 + v/64%64)*64 + v%64 = v := by omega
        have low : (if v/4096 = 0 then 0xA0 else 0x80) ≤ 0x80 + v/64%64 := by split <;> omega
        have high : 0x80 + v/64%64 ≤ if v/4096 = 13 then 0x9F else 0xBF := by split <;> omega
        simp only [List.cons_append,List.nil_append,decodeFrom,feed_lead_three (show v/4096 < 16 by omega),
          feed_more (show v/64%64 < 64 by omega) low high,
          feed_last (show v%64 < 64 by omega),value,back]
      · have value : ((v/262144*64 + v/4096%64)*64 + v/64%64)*64 + v%64 = v := by omega
        have low : (if v/262144 = 0 then 0x90 else 0x80) ≤ 0x80 + v/4096%64 := by split <;> omega
        have high : 0x80 + v/4096%64 ≤ if v/262144 = 4 then 0x8F else 0xBF := by split <;> omega
        simp only [List.cons_append,List.nil_append,decodeFrom,feed_lead_four (show v/262144 < 5 by omega),
          feed_more (show v/4096%64 < 64 by omega) low high,
          feed_more (show v/64%64 < 64 by omega) (show 0x80 ≤ 0x80 + v/64%64 by omega) (show 0x80 + v/64%64 ≤ 0xBF by omega),
          feed_last (show v%64 < 64 by omega),value,back]

theorem fromUtf8Lossy_encode (text : Text) (rest : Bytes) :
    fromUtf8Lossy (encode text ++ rest) = text ++ fromUtf8Lossy rest := by
  unfold fromUtf8Lossy
  induction text with
  | nil => rfl
  | cons c text ih =>
    have split : encode (c :: text) ++ rest = encodeChar c ++ (encode text ++ rest) := by
      simp [encode]
    rw [split,decode_char,ih]
    rfl

theorem fromUtf8Lossy_text (text : Text) : fromUtf8Lossy (encode text) = text := by
  have decoded := fromUtf8Lossy_encode text []
  rw [List.append_nil] at decoded
  exact decoded.trans (List.append_nil text)

-- A character whose last bytes are missing is one replacement character.
theorem decode_part (c : Char) (begun : 0 < n) (short : n < (encodeChar c).length) :
    decodeFrom none ((encodeChar c).take n) = [replacement] := by
  have scalar : c.toNat < 0xD800 ∨ 0xDFFF < c.toNat ∧ c.toNat < 0x110000 := c.valid
  unfold encodeChar at short ⊢
  generalize c.toNat = v at scalar short ⊢
  dsimp only at short ⊢
  split at short
  · rw [List.length_singleton] at short
    omega
  rename_i wide
  rw [if_neg wide]
  split at short
  · rename_i two
    rw [if_pos two]
    simp only [List.length_cons,List.length_nil] at short
    obtain rfl : n = 1 := by omega
    simp only [List.take_succ_cons,List.take_zero,decodeFrom,feed_lead_two (show 2 ≤ v/64 by omega) (by omega),List.nil_append]
  rename_i wider
  rw [if_neg wider]
  split at short
  · rename_i three
    rw [if_pos three]
    have low : (if v/4096 = 0 then 0xA0 else 0x80) ≤ 0x80 + v/64%64 := by split <;> omega
    have high : 0x80 + v/64%64 ≤ if v/4096 = 13 then 0x9F else 0xBF := by split <;> omega
    simp only [List.length_cons,List.length_nil] at short
    obtain rfl | rfl : n = 1 ∨ n = 2 := by omega
    · simp only [List.take_succ_cons,List.take_zero,decodeFrom,feed_lead_three (show v/4096 < 16 by omega),List.nil_append]
    · simp only [List.take_succ_cons,List.take_zero,decodeFrom,feed_lead_three (show v/4096 < 16 by omega),
        feed_more (show v/64%64 < 64 by omega) low high,List.nil_append]
  · rename_i widest
    rw [if_neg widest]
    have low : (if v/262144 = 0 then 0x90 else 0x80) ≤ 0x80 + v/4096%64 := by split <;> omega
    have high : 0x80 + v/4096%64 ≤ if v/262144 = 4 then 0x8F else 0xBF := by split <;> omega
    simp only [List.length_cons,List.length_nil] at short
    obtain rfl | rfl | rfl : n = 1 ∨ n = 2 ∨ n = 3 := by omega
    · simp only [List.take_succ_cons,List.take_zero,decodeFrom,feed_lead_four (show v/262144 < 5 by omega),List.nil_append]
    · simp only [List.take_succ_cons,List.take_zero,decodeFrom,feed_lead_four (show v/262144 < 5 by omega),
        feed_more (show v/4096%64 < 64 by omega) low high,List.nil_append]
    · simp only [List.take_succ_cons,List.take_zero,decodeFrom,feed_lead_four (show v/262144 < 5 by omega),
        feed_more (show v/4096%64 < 64 by omega) low high,
        feed_more (show v/64%64 < 64 by omega) (show 0x80 ≤ 0x80 + v/64%64 by omega) (show 0x80 + v/64%64 ≤ 0xBF by omega),
        List.nil_append]

theorem encodeChar_pos (c : Char) : 0 < (encodeChar c).length := by
  unfold encodeChar
  dsimp only
  split
  · exact Nat.one_pos
  · split
    · exact Nat.two_pos
    · split <;> exact Nat.succ_pos _

-- The bytes of a text, cut anywhere: whole characters and a part of the next.
theorem encode_cut (text : Text) (cut : bytes <+: encode text) : ∃ front later part, text = front ++ later ∧
    bytes = encode front ++ part ∧ (part = [] ∨ ∃ c more n, later = c :: more ∧ 0 < n ∧ n < (encodeChar c).length ∧
      part = (encodeChar c).take n) := by
  induction text generalizing bytes with
  | nil =>
    have none : bytes = [] := List.prefix_nil.mp cut
    exact ⟨[],[],[],rfl,none,.inl rfl⟩
  | cons c rest ih =>
    rw [encode,List.flatMap_cons] at cut
    rcases Nat.lt_or_ge bytes.length (encodeChar c).length with short | long
    · have part : bytes = (encodeChar c).take bytes.length := by
        have same := List.prefix_iff_eq_take.mp cut
        rwa [List.take_append_of_le_length short.le] at same
      refine ⟨[],c :: rest,bytes,rfl,rfl,?_⟩
      rcases Nat.eq_zero_or_pos bytes.length with none | some_
      · exact .inl (List.length_eq_zero_iff.mp none)
      · exact .inr ⟨c,rest,bytes.length,rfl,some_,short,part⟩
    · obtain ⟨after,rfl⟩ := List.prefix_of_prefix_length_le (List.prefix_append _ _) cut long
      obtain ⟨front,later,part,rfl,rfl,end_⟩ := ih ((List.prefix_append_right_inj _).mp cut)
      exact ⟨c :: front,later,part,rfl,by simp [encode],end_⟩

theorem encode_injective (left right : Text) (same : encode left = encode right) : left = right := by
  have decoded := congrArg fromUtf8Lossy same
  rwa [fromUtf8Lossy_text,fromUtf8Lossy_text] at decoded

theorem encode_front (front text : Text) (cut : encode front <+: encode text) : front <+: text := by
  obtain ⟨rest,same⟩ := cut
  have decoded := congrArg fromUtf8Lossy same
  rw [fromUtf8Lossy_encode,fromUtf8Lossy_text] at decoded
  exact ⟨_,decoded⟩

theorem encode_ascii (text : Text) (small : ∀ c ∈ text, c.toNat < 0x80) : encode text = text.map (fun c => .ofNat c.toNat) := by
  induction text with
  | nil => rfl
  | cons c rest ih =>
    rw [List.forall_mem_cons] at small
    have first : encodeChar c = [.ofNat c.toNat] := if_pos small.1
    rw [List.map_cons,← ih small.2,encode,List.flatMap_cons,first]
    rfl

-- What reads back of a text whose bytes were cut: its first characters, all of
-- them whose bytes are there, and at most one replacement character.
theorem fromUtf8Lossy_cut (text : Text) (cut : bytes <+: encode text) : ∃ front junk, front <+: text ∧
    fromUtf8Lossy bytes = front ++ junk ∧ (junk = [] ∨ junk = [replacement]) ∧
      ∀ whole, whole <+: text → encode whole <+: bytes → whole <+: front := by
  obtain ⟨front,later,part,rfl,rfl,ends⟩ := encode_cut text cut
  have longest : ∀ whole, whole <+: front ++ later → encode whole <+: encode front ++ part → whole <+: front := by
    intro whole inside held
    rcases List.prefix_or_prefix_of_prefix inside (List.prefix_append front later) with done | ⟨more,rfl⟩
    · exact done
    · cases more with
      | nil =>
        rw [List.append_nil]
      | cons d more =>
        have next := (List.prefix_append_right_inj _).mp inside
        rw [encode,List.flatMap_append,← encode,List.flatMap_cons,List.prefix_append_right_inj] at held
        have size := held.length_le
        rw [List.length_append] at size
        rcases ends with rfl | ⟨c,tail,n,rfl,_,short,rfl⟩
        · have some_ := encodeChar_pos d
          rw [List.length_nil] at size
          omega
        · obtain ⟨rfl,_⟩ := List.cons_prefix_cons.mp next
          rw [List.length_take] at size
          omega
  refine ⟨front,_,List.prefix_append _ _,fromUtf8Lossy_encode front part,?_,longest⟩
  rcases ends with rfl | ⟨c,tail,n,_,begun,short,rfl⟩
  · exact .inl rfl
  · exact .inr (decode_part c begun short)

theorem fromUtf8_iff : fromUtf8 bytes = some text ↔ bytes = encode text := by
  constructor
  · intro read
    unfold fromUtf8 at read
    dsimp only at read
    split at read
    · rename_i back
      cases read
      exact back.symm
    · cases read
  · rintro rfl
    unfold fromUtf8
    dsimp only
    rw [fromUtf8Lossy_text,if_pos rfl]

-- No byte of a character other than the line feed itself is a line feed.
theorem encode_some (c : Char) (rest : Text) : encode (c :: rest) ≠ [] := by
  intro none
  rw [encode,List.flatMap_cons] at none
  have first := (List.append_eq_nil_iff.mp none).1
  dsimp only [encodeChar] at first
  split at first
  · cases first
  · split at first
    · cases first
    · split at first
      · cases first
      · cases first

theorem newline_encodeChar (c : Char) (other : c ≠ '\n') : newline ∉ encodeChar c := by
  have far : c.toNat ≠ 10 := fun same => other (Char.toNat_inj.mp same)
  have top : c.toNat < 0x110000 := by
    have scalar : c.toNat < 0xD800 ∨ 0xDFFF < c.toNat ∧ c.toNat < 0x110000 := c.valid
    omega
  have differs : ∀ n, n < 256 → n ≠ 10 → newline ≠ UInt8.ofNat n := by
    intro n small off same
    have numbers := congrArg UInt8.toNat same
    rw [byte_toNat small] at numbers
    exact off numbers.symm
  unfold encodeChar
  generalize c.toNat = v at far top
  dsimp only
  split
  · simp only [List.mem_singleton]
    exact differs _ (by omega) (by omega)
  · split
    · simp only [List.mem_cons,List.not_mem_nil,or_false,not_or]
      exact ⟨differs _ (by omega) (by omega),differs _ (by omega) (by omega)⟩
    · split
      · simp only [List.mem_cons,List.not_mem_nil,or_false,not_or]
        exact ⟨differs _ (by omega) (by omega),differs _ (by omega) (by omega),differs _ (by omega) (by omega)⟩
      · simp only [List.mem_cons,List.not_mem_nil,or_false,not_or]
        exact ⟨differs _ (by omega) (by omega),differs _ (by omega) (by omega),differs _ (by omega) (by omega),
          differs _ (by omega) (by omega)⟩

theorem decode_pending (pending : Pending) (bytes : Bytes) : decodeFrom (some pending) bytes ≠ [] := by
  induction bytes generalizing pending with
  | nil => simp [decodeFrom]
  | cons byte rest ih =>
    simp only [decodeFrom,feed]
    split
    · split
      · simp
      · simpa using ih _
    · simp

theorem fromUtf8Lossy_ne_nil (bytes : Bytes) (some_ : bytes ≠ []) : fromUtf8Lossy bytes ≠ [] := by
  cases bytes with
  | nil => exact absurd rfl some_
  | cons byte rest =>
    simp only [fromUtf8Lossy,decodeFrom,feed,start]
    split
    · simp
    · simpa using decode_pending _ rest
    · simp

theorem lines_ne_nil (text : Text) (some_ : text ≠ []) : lines text ≠ [] := by
  cases text with
  | nil => exact absurd rfl some_
  | cons c rest =>
    simp only [lines,LineStream.splitInclusive]
    split
    · simp
    · split <;> simp

-- A sequence begun stands for no control character: its value is above zero
-- already, or its next byte makes it so.
def Pending.Sound (pending : Pending) : Prop :=
  0x80 ≤ pending.low ∧ (0 < pending.value ∨ 0x80 < pending.low ∧ 1 < pending.missing)

def Sound (state : Option Pending) : Prop := ∀ pending, state = some pending → pending.Sound

theorem lead_sound (b : Nat) (pending : Pending) (opened : lead b = .sequence pending) : pending.Sound := by
  unfold lead at opened
  repeat' split at opened
  all_goals try simp only [Lead.sequence.injEq,reduceCtorEq] at opened
  all_goals subst opened
  · exact ⟨by simp,Or.inl (by simp; omega)⟩
  · exact ⟨by simp,Or.inr ⟨by simp,by simp⟩⟩
  · exact ⟨by simp,Or.inl (by simp)⟩
  · exact ⟨by simp,Or.inl (by simp; omega)⟩
  · exact ⟨by simp,Or.inr ⟨by simp,by simp⟩⟩
  · exact ⟨by simp,Or.inl (by simp)⟩
  · exact ⟨by simp,Or.inl (by simp; omega)⟩

theorem start_sound (b : Nat) : Sound (start b).2 := by
  intro pending begun
  unfold start at begun
  split at begun
  · cases begun
  · rename_i opened found
    obtain rfl := Option.some.inj begun
    exact lead_sound b opened found
  · cases begun

theorem feed_sound (state : Option Pending) (byte : UInt8) (sound : Sound state) : Sound (feed state byte).2 := by
  cases state with
  | none => exact start_sound byte.toNat
  | some pending =>
    obtain ⟨low,value⟩ := sound pending rfl
    unfold feed
    dsimp only
    split
    · rename_i inside
      split
      · intro other none
        cases none
      · intro other same
        obtain rfl := Option.some.inj same
        refine ⟨by simp,Or.inl ?_⟩
        dsimp only
        omega
    · exact start_sound byte.toNat

theorem start_newline : start newline.toNat = (['\n'],none) := by decide

-- A line feed is never part of a longer sequence: it closes what was begun and
-- the text after it is read on its own.
theorem decode_newline (state : Option Pending) (sound : Sound state) (body rest : Bytes) :
    decodeFrom state (body ++ newline :: rest) = decodeFrom state body ++ '\n' :: decodeFrom none rest := by
  induction body generalizing state with
  | nil =>
    cases state with
    | none => simp [decodeFrom,feed,start_newline]
    | some pending =>
      have outside : ¬ (pending.low ≤ newline.toNat ∧ newline.toNat ≤ pending.high) := by
        intro inside
        have low := (sound pending rfl).1
        have ten : newline.toNat = 10 := rfl
        omega
      simp only [List.nil_append,decodeFrom,feed]
      rw [if_neg outside]
      simp [start_newline]
  | cons byte body ih =>
    have later := ih _ (feed_sound state byte sound)
    cases state <;> simp only [List.cons_append,decodeFrom,later,List.append_assoc]

theorem ofNat_newline (n : Nat) (same : Char.ofNat n = '\n') : n = 10 := by
  by_cases valid : n.isValidChar
  · have whole : Char.ofNat n = Char.ofNatAux n valid := dif_pos valid
    exact congrArg Char.toNat (whole.symm.trans same)
  · have zero : Char.ofNat n = '\x00' := dif_neg valid
    exact absurd (zero.symm.trans same) (by decide)

theorem start_silent (b : Nat) (other : b ≠ 10) : '\n' ∉ (start b).1 := by
  unfold start
  split
  · rename_i c found
    have ascii : c = Char.ofNat b := by
      unfold lead at found
      split at found
      · exact (Lead.char.inj found).symm
      · repeat' split at found
        all_goals cases found
    subst ascii
    intro member
    exact other (ofNat_newline b (List.mem_singleton.mp member).symm)
  · simp
  · decide

theorem feed_silent (state : Option Pending) (byte : UInt8) (sound : Sound state) (other : byte ≠ newline) :
    '\n' ∉ (feed state byte).1 := by
  have far : byte.toNat ≠ 10 := fun same => other (UInt8.toNat_inj.mp same)
  have fresh : '\n' ∉ (start byte.toNat).1 := start_silent _ far
  cases state with
  | none => exact fresh
  | some pending =>
    obtain ⟨low,value⟩ := sound pending rfl
    unfold feed
    dsimp only
    split
    · rename_i inside
      split
      · rename_i last
        intro member
        have ten := ofNat_newline _ (List.mem_singleton.mp member).symm
        omega
      · simp
    · simp only [List.mem_cons,not_or]
      exact ⟨by decide,fresh⟩

theorem decode_silent (state : Option Pending) (sound : Sound state) (body : Bytes) (silent : newline ∉ body) :
    '\n' ∉ decodeFrom state body := by
  induction body generalizing state with
  | nil =>
    cases state with
    | none => simp [decodeFrom]
    | some pending => simp only [decodeFrom]; decide
  | cons byte body ih =>
    rw [List.mem_cons,not_or] at silent
    have here := feed_silent state byte sound (Ne.symm silent.1)
    have later := ih _ (feed_sound state byte sound) silent.2
    cases state <;> simp only [decodeFrom,List.mem_append,not_or] <;> exact ⟨here,later⟩

def isNewlineByte (byte : UInt8) : Bool := byte == newline

-- A carriage return before the line feed that ended the line.
def stripCarriage (text : Text) : Text := if text.getLast? = some '\r' then text.dropLast else text

-- One complete line of a file, without its line feed, as text.
def lossyLine (record : Bytes) : Text := stripCarriage (fromUtf8Lossy record.dropLast)

theorem stripLine_ended (text : Text) : stripLine (text ++ ['\n']) = stripCarriage text := by
  simp only [stripLine,List.getLast?_append,List.getLast?_singleton,Option.some_or,List.dropLast_concat]
  rfl

-- Decoding and cutting into lines commute on complete lines, however many of
-- them are decoded together.
theorem lines_records {records : List Bytes} (valid : ∀ record ∈ records, LineStream.IsRecord isNewlineByte record) :
    lines (fromUtf8Lossy records.flatten) = records.map lossyLine := by
  have nothing : Sound none := by intro pending none; cases none
  have bodies : ∀ record ∈ records, ∃ body, record = body ++ [newline] ∧ newline ∉ body := by
    intro record member
    obtain ⟨body,last,rfl,closes,silent⟩ := valid record member
    refine ⟨body,by rw [eq_of_beq closes],?_⟩
    intro inside
    have open_ := silent newline inside
    cases open_
  have decoded : fromUtf8Lossy records.flatten =
      (records.map (fun record => fromUtf8Lossy record.dropLast ++ ['\n'])).flatten := by
    clear valid
    induction records with
    | nil => rfl
    | cons record rest ih =>
      rw [List.forall_mem_cons] at bodies
      obtain ⟨⟨body,rfl,_⟩,later⟩ := bodies
      have step := decode_newline none nothing body rest.flatten
      rw [List.flatten_cons,List.append_assoc,List.singleton_append]
      simp only [fromUtf8Lossy] at ih step ⊢
      rw [step,ih later]
      simp
  have stream : LineStream.IsStream isNewline (records.map (fun record => fromUtf8Lossy record.dropLast ++ ['\n'])) [] := by
    refine ⟨?_,by simp⟩
    intro piece member
    obtain ⟨record,held,rfl⟩ := List.mem_map.mp member
    obtain ⟨body,rfl,silent⟩ := bodies record held
    refine ⟨_,'\n',rfl,rfl,?_⟩
    intro c inside
    apply beq_eq_false_iff_ne.mpr
    intro same
    subst same
    rw [List.dropLast_concat] at inside
    exact decode_silent none nothing body silent inside
  have pieces := LineStream.splitInclusive_stream stream
  rw [List.append_nil] at pieces
  rw [lines,decoded,pieces]
  simp [stripLine_ended,lossyLine]

structure Line where
  text : Text
  oneLine : '\n' ∉ text
  bare : text.getLast? ≠ some '\r'

def Line.bytes (line : Line) : Bytes := encode line.text ++ [newline]

theorem Line.record (line : Line) : LineStream.IsRecord isNewlineByte line.bytes := by
  refine ⟨encode line.text,newline,rfl,rfl,?_⟩
  intro byte member
  obtain ⟨c,inText,inChar⟩ := List.mem_flatMap.mp member
  apply beq_eq_false_iff_ne.mpr
  rintro rfl
  refine newline_encodeChar c ?_ inChar
  rintro rfl
  exact line.oneLine inText

theorem lossyLine_bytes (line : Line) : lossyLine line.bytes = line.text := by
  have back : fromUtf8Lossy (encode line.text) = line.text := by
    simpa [fromUtf8Lossy,decodeFrom] using fromUtf8Lossy_encode line.text []
  rw [lossyLine,Line.bytes,List.dropLast_concat,back,stripCarriage,if_neg line.bare]

theorem lines_written (written : List Line) :
    lines (fromUtf8Lossy (written.map Line.bytes).flatten) = written.map Line.text := by
  have valid : ∀ record ∈ written.map Line.bytes, LineStream.IsRecord isNewlineByte record := by
    intro record member
    obtain ⟨line,_,rfl⟩ := List.mem_map.mp member
    exact line.record
  rw [lines_records valid,List.map_map]
  exact List.map_congr_left (fun line _ => lossyLine_bytes line)

end Utf8Text
