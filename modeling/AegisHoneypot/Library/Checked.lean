import AegisHoneypot.Library.Utf8Text

-- Operations that panic outside their domain. Offsets into a text count the
-- bytes of its encoding and must lie between two characters.
namespace Checked
open Utf8Text

-- `unfinished` is no panic: a loop or a recursion has used up its bound.
inductive Panic where
  | slice
  | index
  | unwrap
  | overflow
  | unfinished
  deriving DecidableEq, Repr

abbrev Result := Except Panic

@[simp] theorem ok_bind (value : α) (next : α → Result β) : (Except.ok value >>= next : Result β) = next value := rfl

theorem mapM_ok {step : α → Result β} {plain : α → β} (list : List α) (one : ∀ item ∈ list, step item = .ok (plain item)) :
    list.mapM step = .ok (list.map plain) := by
  induction list with
  | nil => rfl
  | cons item rest ih =>
    rw [List.forall_mem_cons] at one
    rw [List.mapM_cons,one.1,ih one.2]
    rfl

theorem foldlM_ok {step : α → β → Result α} {plain : α → β → α} (list : List β) (start : α)
    (one : ∀ current, ∀ item ∈ list, step current item = .ok (plain current item)) :
    list.foldlM step start = .ok (list.foldl plain start) := by
  induction list generalizing start with
  | nil => rfl
  | cons item rest ih =>
    rw [List.foldlM_cons,one start item List.mem_cons_self,ok_bind,
      ih _ (fun current other member => one current other (List.mem_cons_of_mem _ member))]
    rfl

def sub (left right : Nat) : Result Nat := if right ≤ left then .ok (left-right) else .error .overflow

def unwrap : Option α → Result α
  | some value => .ok value
  | none => .error .unwrap

def get (list : List α) (i : Nat) : Result α :=
  match list[i]? with
  | some value => .ok value
  | none => .error .index

def takeTo (stop : Nat) (list : List α) : Result (List α) :=
  if stop ≤ list.length then .ok (list.take stop) else .error .slice

def dropFrom (offset : Nat) (list : List α) : Result (List α) :=
  if offset ≤ list.length then .ok (list.drop offset) else .error .slice

theorem sub_ok (below : right ≤ left) : sub left right = .ok (left-right) := if_pos below

theorem takeTo_ok (inside : stop ≤ list.length) : takeTo stop list = .ok (list.take stop) := if_pos inside

theorem dropFrom_ok (inside : offset ≤ list.length) : dropFrom offset list = .ok (list.drop offset) := if_pos inside

section Slices

def width (c : Char) : Nat := (encodeChar c).length

def len (text : Text) : Nat := (encode text).length

def splitAt (offset : Nat) : Text → Result (Text × Text)
  | [] => if offset = 0 then .ok ([],[]) else .error .slice
  | c :: rest =>
    if offset = 0 then .ok ([],c :: rest)
    else if offset < width c then .error .slice
    else (splitAt (offset - width c) rest).map (fun found => (c :: found.1,found.2))

def sliceTo (stop : Nat) (text : Text) : Result Text := (splitAt stop text).map Prod.fst

def sliceFrom (start : Nat) (text : Text) : Result Text := (splitAt start text).map Prod.snd

def slice (start stop : Nat) (text : Text) : Result Text :=
  if start ≤ stop then sliceTo stop text >>= sliceFrom start else .error .slice

theorem width_pos (c : Char) : 0 < width c := by
  unfold width encodeChar
  dsimp only
  repeat' split
  all_goals exact Nat.zero_lt_succ _

theorem len_cons (c : Char) (rest : Text) : len (c :: rest) = width c + len rest := by
  simp [len,width,encode]

theorem len_append (front back : Text) : len (front ++ back) = len front + len back := by
  simp [len,encode]

theorem splitAt_append (front back : Text) : splitAt (len front) (front ++ back) = .ok (front,back) := by
  induction front with
  | nil => cases back <;> rfl
  | cons c rest ih =>
    have pos := width_pos c
    rw [List.cons_append,splitAt,len_cons,if_neg (by omega),if_neg (by omega),Nat.add_sub_cancel_left,ih]
    rfl

theorem sliceTo_append (front back : Text) : sliceTo (len front) (front ++ back) = .ok front := by
  rw [sliceTo,splitAt_append]
  rfl

theorem sliceFrom_append (front back : Text) : sliceFrom (len front) (front ++ back) = .ok back := by
  rw [sliceFrom,splitAt_append]
  rfl

theorem slice_middle (front middle back : Text) :
    slice (len front) (len front + len middle) (front ++ middle ++ back) = .ok middle := by
  rw [slice,if_pos (Nat.le_add_right _ _),← len_append,sliceTo_append,ok_bind,sliceFrom_append]

end Slices

section Searching

-- `str::find` of a text: the offset of its first occurrence.
def find (needle : Text) : Text → Option Nat
  | [] => if needle = [] then some 0 else none
  | c :: rest => if needle.isPrefixOf (c :: rest) then some 0 else (find needle rest).map (width c + ·)

-- `str::rfind` of a character: the offset of its last occurrence.
def rfind (needle : Char) : Text → Option Nat
  | [] => none
  | c :: rest => ((rfind needle rest).map (width c + ·)).or (if c = needle then some 0 else none)

def byteAt (text : Text) (offset : Nat) : Option UInt8 := (encode text)[offset]?

theorem byteAt_append (front back : Text) : byteAt (front ++ back) (len front) = (encode back).head? := by
  have joined : encode (front ++ back) = encode front ++ encode back := List.flatMap_append
  rw [byteAt,len,joined,List.getElem?_append_right (Nat.le_refl _),Nat.sub_self,List.head?_eq_getElem?]

-- The first byte of a character below 0x80 is the character, and no other
-- character begins with it.
theorem first_byte (c : Char) (small : ascii < 0x80) : (encodeChar c).head? = some (.ofNat ascii) ↔ c.toNat = ascii := by
  have same : ∀ {left right : Nat}, left < 256 → right < 256 → (UInt8.ofNat left = UInt8.ofNat right ↔ left = right) := by
    intro left right leftSmall rightSmall
    rw [← UInt8.toNat_inj,byte_toNat leftSmall,byte_toNat rightSmall]
  have below : c.toNat < 0x110000 := by
    have valid := c.valid
    change c.toNat.isValidChar at valid
    unfold Nat.isValidChar at valid
    omega
  unfold encodeChar
  dsimp only
  split
  · simp only [List.head?_cons,Option.some.injEq]
    exact same (by omega) (by omega)
  · split
    · simp only [List.head?_cons,Option.some.injEq]
      rw [same (by omega) (by omega)]
      omega
    · split
      · simp only [List.head?_cons,Option.some.injEq]
        rw [same (by omega) (by omega)]
        omega
      · simp only [List.head?_cons,Option.some.injEq]
        rw [same (by omega) (by omega)]
        omega

theorem encode_head (c : Char) (rest : Text) : (encode (c :: rest)).head? = (encodeChar c).head? := by
  have named : encodeChar c ≠ [] := List.ne_nil_of_length_pos (width_pos c)
  rw [encode,List.flatMap_cons,List.head?_append_of_ne_nil _ named]

theorem width_ascii (c : Char) (small : c.toNat < 0x80) : width c = 1 := by
  rw [width,encodeChar,if_pos small]
  rfl

theorem len_ascii (c : Char) (small : c.toNat < 0x80) : len [c] = 1 := by
  rw [len_cons,width_ascii c small]
  rfl

end Searching
end Checked
