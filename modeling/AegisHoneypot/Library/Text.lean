import AegisHoneypot.Library.Splitting
import Mathlib.Data.List.DropRight
import Mathlib.Data.List.Infix

-- Text as a list of Unicode scalar values, with the string operations of the
-- Rust standard library under their own names.
abbrev Text := List Char

namespace Text

-- The Unicode `White_Space` property.
def isWhitespace (c : Char) : Bool :=
  (0x9 ≤ c.toNat && c.toNat ≤ 0xD) || c.toNat == 0x20 || c.toNat == 0x85 || c.toNat == 0xA0 ||
    c.toNat == 0x1680 || (0x2000 ≤ c.toNat && c.toNat ≤ 0x200A) || c.toNat == 0x2028 ||
    c.toNat == 0x2029 || c.toNat == 0x202F || c.toNat == 0x205F || c.toNat == 0x3000

def trimStart (text : Text) : Text := text.dropWhile isWhitespace

def trimEnd (text : Text) : Text := text.rdropWhile isWhitespace

def trim (text : Text) : Text := trimEnd (trimStart text)

def splitWhitespace (text : Text) : List Text := (text.splitOnP isWhitespace).filter (· ≠ [])

-- `str::split` on one character: as many pieces as separators and one more.
def split (separator : Char) (text : Text) : List Text := text.splitOn separator

def trimStartMatches (c : Char) (text : Text) : Text := text.dropWhile (· == c)

def startsWith (text : Text) (head : String) : Bool := head.toList.isPrefixOf text

def containsText (text : Text) (needle : String) : Bool := decide (needle.toList <:+: text)

-- `[T]::join`
def join (separator : String) : List Text → Text
  | [] => []
  | [last] => last
  | first :: rest => first ++ separator.toList ++ join separator rest

-- `format!("{:>width$}")` of a number
def padLeft (width : Nat) (number : Nat) : Text :=
  let digits := (toString number).toList
  List.replicate (width-digits.length) ' ' ++ digits

-- `replace("\r\n", "\n")`
def unixLines : Text → Text
  | '\r' :: '\n' :: rest => '\n' :: unixLines rest
  | c :: rest => c :: unixLines rest
  | [] => []

-- `replace('\n', "\r\n")`
def crlfLines (text : Text) : Text := text.flatMap (fun c => if c = '\n' then ['\r','\n'] else [c])

def crlf : Text := ['\r','\n']

theorem trimEnd_cons (c : Char) (rest : Text) :
    trimEnd (c :: rest) = if trimEnd rest = [] then (if isWhitespace c then [] else [c]) else c :: trimEnd rest := by
  unfold trimEnd List.rdropWhile
  rw [List.reverse_cons,List.dropWhile_append]
  by_cases blank : rest.reverse.dropWhile isWhitespace = []
  · rw [blank]
    cases solid : isWhitespace c <;> simp [solid]
  · have some_ : ¬ (rest.reverse.dropWhile isWhitespace).isEmpty = true := by rwa [List.isEmpty_iff]
    rw [if_neg some_,if_neg (by rwa [List.reverse_eq_nil_iff])]
    simp

-- The two ends are trimmed in either order.
theorem trim_comm (text : Text) : trimEnd (trimStart text) = trimStart (trimEnd text) := by
  induction text with
  | nil => rfl
  | cons c rest ih =>
    unfold trimStart at ih ⊢
    rw [trimEnd_cons]
    cases solid : isWhitespace c with
    | true =>
      simp only [List.dropWhile_cons,solid,if_true]
      by_cases blank : trimEnd rest = []
      · rw [ih,blank,if_pos rfl]
      · rw [ih,if_neg blank,List.dropWhile_cons,if_pos solid]
    | false =>
      simp only [List.dropWhile_cons,solid,Bool.false_eq_true,if_false]
      rw [trimEnd_cons,solid]
      by_cases blank : trimEnd rest = []
      · simp [blank,solid]
      · simp [blank,solid]

theorem trim_trimStart (text : Text) : trim (trimStart text) = trim text := by
  unfold trim trimStart
  rw [List.dropWhile_idempotent]

theorem trim_trimEnd (text : Text) : trim (trimEnd text) = trim text := by
  unfold trim
  rw [← trim_comm]
  exact List.rdropWhile_idempotent ..

theorem trim_trim (text : Text) : trim (trim text) = trim text := (trim_trimEnd _).trans (trim_trimStart text)

theorem trim_parts (text : Text) : ∃ front back, text = front ++ trim text ++ back ∧
    (∀ c ∈ front, isWhitespace c = true) ∧ ∀ c ∈ back, isWhitespace c = true := by
  refine ⟨text.takeWhile isWhitespace,(trimStart text).rtakeWhile isWhitespace,?_,?_,?_⟩
  · rw [List.append_assoc,trim,trimEnd,List.rdropWhile_append_rtakeWhile,trimStart,List.takeWhile_append_dropWhile]
  · exact fun c member => List.mem_takeWhile_imp member
  · exact fun c member => List.mem_rtakeWhile_imp member

theorem trimStart_middle (front rest : Text) (solid : isWhitespace c = false) :
    trimStart (front ++ c :: rest) = trimStart front ++ c :: rest := by
  unfold trimStart
  rw [List.dropWhile_append]
  by_cases blank : front.dropWhile isWhitespace = []
  · simp [blank,solid]
  · rw [if_neg (by rwa [List.isEmpty_iff])]

theorem trimEnd_middle (front rest : Text) (solid : isWhitespace c = false) :
    trimEnd (front ++ c :: rest) = front ++ c :: trimEnd rest := by
  induction front with
  | nil =>
    rw [List.nil_append,trimEnd_cons,solid]
    by_cases blank : trimEnd rest = []
    · simp [blank]
    · simp [blank]
  | cons first later ih =>
    rw [List.cons_append,trimEnd_cons,ih,if_neg (by simp)]
    rfl

-- A text that trimming leaves as it is has a solid character at each end.
theorem trimStart_trimmed (trimmed : trim text = text) : trimStart text = text := by
  rw [← trimmed,trim,trim_comm]
  exact List.dropWhile_idempotent ..

theorem trimEnd_trimmed (trimmed : trim text = text) : trimEnd text = text := by
  rw [← trimmed]
  exact List.rdropWhile_idempotent ..

theorem trim_joint (first : trim front = front) (last : trim rest = rest) (solid : isWhitespace c = false) :
    trim (front ++ c :: rest) = front ++ c :: rest := by
  rw [trim,trimStart_middle front rest solid,trimEnd_middle _ rest solid,trimStart_trimmed first,trimEnd_trimmed last]

-- Trimming a text first makes no difference to its trimmed pieces.
theorem split_trimStart (separator : Char) (solid : isWhitespace separator = false) (text : Text) :
    ((trimStart text).split separator).map trim = (text.split separator).map trim := by
  by_cases held : separator ∈ text
  · obtain ⟨front,rest,rfl,first⟩ := List.eq_append_cons_of_mem held
    have missing : separator ∉ trimStart front := fun inside => first ((List.dropWhile_sublist _).subset inside)
    rw [trimStart_middle front rest solid,split,split,List.splitOn_append_cons_self,List.splitOn_append_cons_self,
      List.splitOn_eq_singleton first,List.splitOn_eq_singleton missing]
    simp [trim_trimStart]
  · have missing : separator ∉ trimStart text := fun inside => held ((List.dropWhile_sublist _).subset inside)
    rw [split,split,List.splitOn_eq_singleton held,List.splitOn_eq_singleton missing]
    simp [trim_trimStart]

theorem split_trimEnd (separator : Char) (solid : isWhitespace separator = false) (text : Text) :
    ((trimEnd text).split separator).map trim = (text.split separator).map trim := by
  by_cases held : separator ∈ text
  · obtain ⟨rest,front,reversed,last⟩ := List.eq_append_cons_of_mem (List.mem_reverse.mpr held)
    have parts : text = front.reverse ++ separator :: rest.reverse := by
      rw [← List.reverse_reverse text,reversed]
      simp
    rw [← List.mem_reverse] at last
    have missing : separator ∉ trimEnd rest.reverse := fun inside => last ((List.rdropWhile_prefix _ _).subset inside)
    rw [parts,trimEnd_middle _ _ solid,split,split,List.splitOn_append_cons_self,List.splitOn_append_cons_self,
      List.splitOn_eq_singleton last,List.splitOn_eq_singleton missing]
    simp [trim_trimEnd]
  · have missing : separator ∉ trimEnd text := fun inside => held ((List.rdropWhile_prefix _ _).subset inside)
    rw [split,split,List.splitOn_eq_singleton held,List.splitOn_eq_singleton missing]
    simp [trim_trimEnd]

theorem split_trim (separator : Char) (solid : isWhitespace separator = false) (text : Text) :
    ((trim text).split separator).map trim = (text.split separator).map trim :=
  (split_trimEnd separator solid _).trans (split_trimStart separator solid text)

-- A word: what `split_whitespace` yields.
def IsWord (word : Text) : Prop := word ≠ [] ∧ ∀ c ∈ word, isWhitespace c = false

theorem split_free (member : piece ∈ split separator text) : separator ∉ piece := by
  intro inside
  have apart := (Splitting.cut_splitOnP _ text).solid member separator inside
  simp at apart

theorem splitWhitespace_word (member : word ∈ splitWhitespace text) : IsWord word := by
  obtain ⟨piece,named⟩ := List.mem_filter.mp member
  exact ⟨by simpa using named,(Splitting.cut_splitOnP _ text).solid piece⟩

theorem word_alone (word : IsWord text) : splitWhitespace text = [text] := by
  unfold splitWhitespace
  rw [List.splitOnP_eq_singleton word.2]
  simp [word.1]

-- Words joined by blanks are told apart again.
theorem splitWhitespace_join (words : List Text) (solid : ∀ word ∈ words, IsWord word) :
    splitWhitespace (join " " words) = words := by
  induction words with
  | nil => rfl
  | cons first rest ih =>
    obtain ⟨word,others⟩ := List.forall_mem_cons.mp solid
    cases rest with
    | nil => exact word_alone word
    | cons next rest =>
      have later := ih others
      have blank : " ".toList = [' '] := rfl
      unfold splitWhitespace at later ⊢
      rw [join,blank,List.append_assoc,List.singleton_append,
        List.splitOnP_append_cons_of_forall_mem word.2 ' ' (by decide),List.filter_cons,later]
      · simp [word.1]
      · simp

-- Pieces joined by a character that none of them holds.
theorem split_join {separator : String} (one : separator.toList = [c]) (pieces : List Text) (some_ : pieces ≠ [])
    (free : ∀ piece ∈ pieces, c ∉ piece) : split c (join separator pieces) = pieces := by
  induction pieces with
  | nil => exact absurd rfl some_
  | cons first rest ih =>
    obtain ⟨clear,others⟩ := List.forall_mem_cons.mp free
    cases rest with
    | nil => exact List.splitOn_eq_singleton clear
    | cons next rest =>
      have later := ih (by simp) others
      simp only [join,one,split] at later ⊢
      rw [List.append_assoc,List.singleton_append,List.splitOn_append_cons_self_of_not_mem clear,later]

theorem join_mem {separator : String} (pieces : List Text) (member : c ∈ join separator pieces) :
    c ∈ separator.toList ∨ ∃ piece ∈ pieces, c ∈ piece := by
  induction pieces with
  | nil => cases member
  | cons first rest ih =>
    cases rest with
    | nil => exact Or.inr ⟨first,by simp,member⟩
    | cons next rest =>
      simp only [join,List.mem_append] at member ih
      rcases member with (inside | between) | later
      · exact Or.inr ⟨first,by simp,inside⟩
      · exact Or.inl between
      · rcases ih later with between | ⟨piece,held,inside⟩
        · exact Or.inl between
        · exact Or.inr ⟨piece,List.mem_cons_of_mem _ held,inside⟩

-- CR and LF stand together only.
inductive Paired : Text → Prop where
  | empty : Paired []
  | break_ : Paired rest → Paired ('\r' :: '\n' :: rest)
  | plain : c ≠ '\r' → c ≠ '\n' → Paired rest → Paired (c :: rest)

theorem unixLines_cons (rest : Text) (other : c ≠ '\r') : unixLines (c :: rest) = c :: unixLines rest := by
  rw [unixLines]
  intro later same
  exact absurd same other

theorem unixLines_clear (text : Text) (clear : '\r' ∉ text) : unixLines text = text := by
  induction text with
  | nil => rfl
  | cons c rest ih =>
    obtain ⟨other,later⟩ := not_or.mp (fun held => clear (List.mem_cons.mpr held))
    rw [unixLines_cons rest (Ne.symm other),ih later]

theorem Paired.unix_clear (paired : Paired text) : '\r' ∉ unixLines text := by
  induction paired with
  | empty => exact List.not_mem_nil
  | break_ _ ih =>
    rw [unixLines,List.mem_cons,not_or]
    exact ⟨by decide,ih⟩
  | plain other _ _ ih =>
    rw [unixLines_cons _ other,List.mem_cons,not_or]
    exact ⟨Ne.symm other,ih⟩

-- The two replacements undo each other on such text.
theorem Paired.crlf_unix (paired : Paired text) : crlfLines (unixLines text) = text := by
  induction paired with
  | empty => rfl
  | break_ _ ih =>
    rw [unixLines,crlfLines,List.flatMap_cons]
    exact congrArg (fun rest => '\r' :: '\n' :: rest) ih
  | plain carriage feed _ ih =>
    rw [unixLines_cons _ carriage,crlfLines,List.flatMap_cons,if_neg feed]
    exact congrArg (List.cons _) ih

theorem trimEnd_blank (text : Text) : trimEnd (text ++ [' ']) = trimEnd text := List.rdropWhile_concat_pos _ _ _ rfl

theorem trim_blank (text : Text) : trim (text ++ [' ']) = trim text := by
  rw [← trim_trimEnd,trimEnd_blank,trim_trimEnd]

theorem trim_solid (text : Text) (solid : ∀ c ∈ text, isWhitespace c = false) : trim text = text := by
  have front : trimStart text = text := by
    unfold trimStart
    cases text with
    | nil => rfl
    | cons c rest => simp [solid c (by simp)]
  unfold trim trimEnd
  rw [front,List.rdropWhile_eq_self_iff]
  intro named
  simp [solid _ (List.getLast_mem named)]

end Text
