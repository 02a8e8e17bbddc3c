import AegisHoneypot.Library.Utf16Text

namespace AegisHoneypot.TerminalReplay
open Utf16Text

structure TerminalBuffer where
  lines : List Units
  row : Nat
  col : Nat

def makeTerminalBuffer : TerminalBuffer := ⟨[[]],0,0⟩

def padEnd (width : Nat) (line : Units) : Units := line ++ List.replicate (width-line.length) 0x20

namespace TerminalBuffer

def line (buffer : TerminalBuffer) : Units := buffer.lines.getD buffer.row []

def put (buffer : TerminalBuffer) (ch : Units) : TerminalBuffer :=
  let line := padEnd buffer.col buffer.line
  {buffer with
    lines := buffer.lines.set buffer.row (line.take buffer.col ++ ch ++ line.drop (buffer.col+1))
    col := buffer.col+1}

def feed (buffer : TerminalBuffer) : TerminalBuffer where
  lines := if buffer.row+1 < buffer.lines.length then buffer.lines else buffer.lines ++ [[]]
  row := buffer.row+1
  col := 0

def writeOne (buffer : TerminalBuffer) (ch : Units) : TerminalBuffer :=
  if ch = [0x0d] then {buffer with col := 0}
  else if ch = [0x0a] then buffer.feed
  else if ch = [0x08] then {buffer with col := buffer.col-1}
  else buffer.put ch

def write (buffer : TerminalBuffer) (text : Units) : TerminalBuffer := (codePoints text).foldl writeOne buffer

end TerminalBuffer

-- The events of a replay that has been stepped through.
def play (events : List Units) : TerminalBuffer := events.foldl TerminalBuffer.write makeTerminalBuffer

-- A row for each line break so far, and the cursor on its row.
structure TerminalBuffer.Sound (buffer : TerminalBuffer) : Prop where
  rows : buffer.lines.length = buffer.row+1
  within : buffer.col ≤ buffer.line.length

-- Writing goes on from the current row and leaves the rows above alone.
structure TerminalBuffer.Onward (before after : TerminalBuffer) : Prop where
  sound : after.Sound
  row : before.row ≤ after.row
  above : ∀ i < before.row, after.lines.getD i [] = before.lines.getD i []

namespace TerminalBuffer

theorem make_sound : makeTerminalBuffer.Sound := ⟨rfl,Nat.le_refl _⟩

theorem Onward.refl (sound : Sound buffer) : Onward buffer buffer := ⟨sound,Nat.le_refl _,fun _ _ => rfl⟩

theorem Onward.trans (first : Onward before middle) (second : Onward middle after) : Onward before after := by
  refine ⟨second.sound,Nat.le_trans first.row second.row,?_⟩
  intro i above
  rw [second.above i (Nat.lt_of_lt_of_le above first.row),first.above i above]

theorem padEnd_within (line : Units) (within : width ≤ line.length) : padEnd width line = line := by
  unfold padEnd
  rw [Nat.sub_eq_zero_of_le within]
  exact List.append_nil line

theorem put_lines (sound : Sound buffer) (ch : Units) :
    (buffer.put ch).lines = buffer.lines.set buffer.row (buffer.line.take buffer.col ++ ch ++ buffer.line.drop (buffer.col+1)) := by
  unfold put
  dsimp only
  rw [padEnd_within _ sound.within]

theorem put_line (sound : Sound buffer) (ch : Units) :
    (buffer.put ch).line = buffer.line.take buffer.col ++ ch ++ buffer.line.drop (buffer.col+1) := by
  have inside : buffer.row < buffer.lines.length := by
    rw [sound.rows]
    omega
  unfold line
  rw [put_lines sound]
  change (List.set _ buffer.row _).getD buffer.row [] = _
  rw [List.getD_eq_getElem?_getD,List.getElem?_set_self inside]
  rfl

theorem put_onward (sound : Sound buffer) (ch : Units) (some_ : ch ≠ []) : Onward buffer (buffer.put ch) := by
  have one : 0 < ch.length := List.length_pos_iff.mpr some_
  refine ⟨⟨?_,?_⟩,Nat.le_refl _,?_⟩
  · rw [put_lines sound,List.length_set]
    exact sound.rows
  · rw [put_line sound,List.length_append,List.length_append,List.length_take,Nat.min_eq_left sound.within]
    change buffer.col+1 ≤ _
    omega
  · intro i above
    rw [put_lines sound,List.getD_eq_getElem?_getD,List.getElem?_set_ne (by omega),List.getD_eq_getElem?_getD]

theorem feed_lines (sound : Sound buffer) : buffer.feed.lines = buffer.lines ++ [[]] :=
  if_neg (by rw [sound.rows]; omega)

theorem feed_above (sound : Sound buffer) (i : Nat) (above : i < buffer.row+1) :
    buffer.feed.lines.getD i [] = buffer.lines.getD i [] := by
  rw [feed_lines sound,List.getD_eq_getElem?_getD,List.getElem?_append_left (by rw [sound.rows]; exact above),
    List.getD_eq_getElem?_getD]

theorem feed_sound (sound : Sound buffer) : Sound buffer.feed := by
  refine ⟨?_,Nat.zero_le _⟩
  rw [feed_lines sound,List.length_append,sound.rows]
  rfl

theorem writeOne_onward (sound : Sound buffer) (c : Char) : Onward buffer (buffer.writeOne (ofChar c)) := by
  unfold writeOne
  split
  · exact ⟨⟨sound.rows,Nat.zero_le _⟩,Nat.le_refl _,fun _ _ => rfl⟩
  · split
    · exact ⟨feed_sound sound,Nat.le_succ _,fun i above => feed_above sound i (Nat.lt_succ_of_lt above)⟩
    · split
      · exact ⟨⟨sound.rows,Nat.le_trans (Nat.sub_le _ 1) sound.within⟩,Nat.le_refl _,fun _ _ => rfl⟩
      · apply put_onward sound
        unfold ofChar
        split
        · exact List.cons_ne_nil _ _
        · exact List.cons_ne_nil _ _

theorem write_text (buffer : TerminalBuffer) (text : Text) :
    buffer.write (ofText text) = text.foldl (fun buffer c => buffer.writeOne (ofChar c)) buffer := by
  have points := codePoints_text text []
  rw [List.append_nil] at points
  unfold write
  rw [points,show codePoints [] = [] from rfl,List.append_nil,List.foldl_map]

theorem write_append (buffer : TerminalBuffer) (left right : Text) :
    buffer.write (ofText (left ++ right)) = (buffer.write (ofText left)).write (ofText right) := by
  rw [write_text,write_text,write_text,List.foldl_append]

theorem write_cons (buffer : TerminalBuffer) (c : Char) (text : Text) :
    buffer.write (ofText (c :: text)) = (buffer.writeOne (ofChar c)).write (ofText text) := by
  rw [write_text,write_text]
  rfl

theorem write_nil (buffer : TerminalBuffer) : buffer.write (ofText []) = buffer := rfl

theorem write_onward (sound : Sound buffer) (text : Text) : Onward buffer (buffer.write (ofText text)) := by
  induction text generalizing buffer with
  | nil => exact Onward.refl sound
  | cons c rest ih =>
    rw [write_cons]
    have first := writeOne_onward sound c
    exact first.trans (ih first.sound)

end TerminalBuffer

-- A character that takes a column of its own.
def Visible (c : Char) : Prop := 0x20 ≤ c.toNat ∧ c.toNat < 0x7f

instance (c : Char) : Decidable (Visible c) := inferInstanceAs (Decidable (_ ∧ _))

theorem Visible.small (visible : Visible c) : c.toNat < 0x10000 := by
  have below := visible.2
  omega

theorem Visible.unit (visible : Visible c) (unit : UInt16) (control : unit.toNat < 0x20) : ofChar c ≠ [unit] := by
  rw [ofChar_small c visible.small]
  intro same
  have units := congrArg UInt16.toNat (List.cons.inj same).1
  rw [unit_toNat visible.small] at units
  have above := visible.1
  omega

namespace TerminalBuffer

theorem writeOne_visible (buffer : TerminalBuffer) (visible : Visible c) : buffer.writeOne (ofChar c) = buffer.put (ofChar c) := by
  unfold writeOne
  rw [if_neg (visible.unit 0x0d (by decide)),if_neg (visible.unit 0x0a (by decide)),if_neg (visible.unit 0x08 (by decide))]

-- Text is put down before the cursor and the cursor moves behind it.
structure Typed (text : Text) (before after : TerminalBuffer) : Prop where
  onward : Onward before after
  row : after.row = before.row
  col : after.col = before.col+text.length
  line : after.line.take after.col = before.line.take before.col ++ ofText text

theorem put_typed (sound : Sound buffer) (visible : Visible c) : Typed [c] buffer (buffer.writeOne (ofChar c)) := by
  rw [writeOne_visible buffer visible]
  have single : ofChar c = [UInt16.ofNat c.toNat] := ofChar_small c visible.small
  refine ⟨put_onward sound _ (by rw [single]; exact List.cons_ne_nil _ _),rfl,rfl,?_⟩
  have long : (buffer.line.take buffer.col ++ ofChar c).length = (buffer.put (ofChar c)).col := by
    rw [List.length_append,List.length_take,Nat.min_eq_left sound.within,single]
    rfl
  rw [put_line sound,← long,List.take_left]
  simp [ofText]

theorem write_typed (sound : Sound buffer) (text : Text) (visible : ∀ c ∈ text, Visible c) :
    Typed text buffer (buffer.write (ofText text)) := by
  induction text generalizing buffer with
  | nil => exact ⟨Onward.refl sound,rfl,rfl,by rw [write_nil]; exact (List.append_nil _).symm⟩
  | cons c rest ih =>
    rw [List.forall_mem_cons] at visible
    have first := put_typed sound visible.1
    have later := ih first.onward.sound visible.2
    rw [write_cons]
    refine ⟨first.onward.trans later.onward,later.row.trans first.row,?_,?_⟩
    · rw [later.col,first.col]
      simp only [List.length_cons,List.length_nil]
      omega
    · rw [later.line,first.line,List.append_assoc,← ofText_append]
      rfl

-- `\r\n`: the cursor is at the start of the next row.
structure Broken (before after : TerminalBuffer) : Prop where
  sound : after.Sound
  row : after.row = before.row+1
  col : after.col = 0
  above : ∀ i < before.row+1, after.lines.getD i [] = before.lines.getD i []

theorem write_broken (sound : Sound buffer) : Broken buffer (buffer.write (ofText Text.crlf)) := by
  have returned : Sound {buffer with col := 0} := ⟨sound.rows,Nat.zero_le _⟩
  exact ⟨feed_sound returned,rfl,rfl,fun i above => feed_above returned i above⟩

theorem Broken.onward (broken : Broken before after) : Onward before after :=
  ⟨broken.sound,by rw [broken.row]; omega,fun i above => broken.above i (Nat.lt_succ_of_lt above)⟩

-- `\b \b`: the last column before the cursor is blank and the cursor is on it.
structure Erased (before after : TerminalBuffer) : Prop where
  onward : Onward before after
  row : after.row = before.row
  col : after.col = before.col-1
  line : after.line.take after.col = before.line.take after.col

theorem write_erased (sound : Sound buffer) : Erased buffer (buffer.write (ofText ['\x08',' ','\x08'])) := by
  have back : Sound {buffer with col := buffer.col-1} := ⟨sound.rows,Nat.le_trans (Nat.sub_le _ 1) sound.within⟩
  have blank := put_typed back (show Visible ' ' from ⟨by decide,by decide⟩)
  refine ⟨write_onward sound _,blank.row,?_,?_⟩
  · change (writeOne {buffer with col := buffer.col-1} (ofChar ' ')).col-1 = buffer.col-1
    rw [blank.col]
    rfl
  · have taken := congrArg (List.take (buffer.col-1)) blank.line
    rw [List.take_take,List.take_append_of_le_length (by rw [List.length_take]; exact Nat.le_min.mpr ⟨Nat.le_refl _,back.within⟩),
      List.take_take,Nat.min_self,blank.col,Nat.min_eq_left (Nat.le_add_right _ _)] at taken
    exact taken

end TerminalBuffer

end AegisHoneypot.TerminalReplay
