import AegisHoneypot.LineEditing

namespace AegisHoneypot.ReplayScreen
open Utf16Text Vfs SessionInput TerminalReplay LineEditing

def isPrompt (data : Units) : Bool :=
  (ofText "root@ubuntu-server-01:".toList).isPrefixOf data && (ofText "# ".toList).isSuffixOf data

-- The events of a replay up to the last prompt, and those after it.
def throughPrompt (events : List Units) : List Units := events.rdropWhile (fun data => !isPrompt data)

def sincePrompt (events : List Units) : List Units := events.rtakeWhile (fun data => !isPrompt data)

def textBefore (lines : List Units) (row col : Nat) : Units :=
  (lines.take row).flatMap (· ++ [0x0a]) ++ (lines.getD row []).take col

-- What stands on the screen between the end of the last prompt and the cursor.
def enteredText (events : List Units) : Units :=
  let screen := play events
  let prompt := play (throughPrompt events)
  (textBefore screen.lines screen.row screen.col).drop (textBefore screen.lines prompt.row prompt.col).length

structure AtPrompt (prompt screen : TerminalBuffer) (line : Text) : Prop where
  row : screen.row = prompt.row
  shown : ∃ front, front.length = prompt.col ∧ screen.line.take screen.col = front ++ ofText line

-- Since the last prompt something was said, and the line begins on a new row.
structure PastGoodbye (prompt screen : TerminalBuffer) (line : Text) : Prop where
  row : prompt.row < screen.row
  shown : screen.line.take screen.col = ofText line
  said : ∃ unit ∈ (screen.lines.getD prompt.row []).drop prompt.col, Text.isWhitespace (Char.ofNat unit.toNat) = false

section Screen
variable {prompt screen : TerminalBuffer} {line : Text}

theorem taken_typed (sound : screen.Sound) (visible : Visible c) (shown : screen.line.take screen.col = front ++ ofText line) :
    (screen.write (ofText [c])).line.take (screen.write (ofText [c])).col = front ++ ofText (line ++ [c]) := by
  have typed := TerminalBuffer.write_typed sound [c] (by simpa using visible)
  rw [typed.line,shown,ofText_append,List.append_assoc]

theorem taken_erased (sound : screen.Sound) (visible : Visible c)
    (shown : screen.line.take screen.col = front ++ ofText (line ++ [c])) :
    (screen.write (ofText erasure)).line.take (screen.write (ofText erasure)).col = front ++ ofText line := by
  have erased := TerminalBuffer.write_erased sound
  have single : ofText [c] = [UInt16.ofNat c.toNat] := by
    rw [ofText,List.flatMap_singleton,ofChar_small c visible.small]
  have long := congrArg List.length shown
  rw [List.length_take,Nat.min_eq_left sound.within,ofText_append,single,← List.append_assoc,List.length_append] at long
  have short : screen.col-1 = (front ++ ofText line).length := by
    rw [long]
    rfl
  have cut : screen.line.take (screen.col-1) = (screen.line.take screen.col).take (screen.col-1) := by
    rw [List.take_take,Nat.min_eq_left (Nat.sub_le _ 1)]
  rw [show erasure = ['\x08',' ','\x08'] from rfl,erased.line,erased.col,cut,shown,ofText_append,← List.append_assoc,short,
    List.take_left]

theorem AtPrompt.typed (at_ : AtPrompt prompt screen line) (sound : screen.Sound) (visible : Visible c) :
    AtPrompt prompt (screen.write (ofText [c])) (line ++ [c]) := by
  have typed := TerminalBuffer.write_typed sound [c] (by simpa using visible)
  obtain ⟨front,long,shown⟩ := at_.shown
  exact ⟨typed.row.trans at_.row,front,long,taken_typed sound visible shown⟩

theorem AtPrompt.erased (at_ : AtPrompt prompt screen (line ++ [c])) (sound : screen.Sound) (visible : Visible c) :
    AtPrompt prompt (screen.write (ofText erasure)) line := by
  have erased := TerminalBuffer.write_erased sound
  obtain ⟨front,long,shown⟩ := at_.shown
  exact ⟨erased.row.trans at_.row,front,long,taken_erased sound visible shown⟩

theorem PastGoodbye.onward (past : PastGoodbye prompt screen line) (onward : screen.Onward after)
    (shown : after.line.take after.col = ofText text) : PastGoodbye prompt after text := by
  refine ⟨Nat.lt_of_lt_of_le past.row onward.row,shown,?_⟩
  rw [onward.above prompt.row past.row]
  exact past.said

theorem PastGoodbye.typed (past : PastGoodbye prompt screen line) (sound : screen.Sound) (visible : Visible c) :
    PastGoodbye prompt (screen.write (ofText [c])) (line ++ [c]) := by
  have shown : screen.line.take screen.col = [] ++ ofText line := past.shown
  exact past.onward (TerminalBuffer.write_onward sound [c]) (taken_typed sound visible shown)

theorem PastGoodbye.erased (past : PastGoodbye prompt screen (line ++ [c])) (sound : screen.Sound) (visible : Visible c) :
    PastGoodbye prompt (screen.write (ofText erasure)) line := by
  have shown : screen.line.take screen.col = [] ++ ofText (line ++ [c]) := past.shown
  exact past.onward (TerminalBuffer.write_onward sound erasure) (taken_erased sound visible shown)

theorem write_goodbye (sound : screen.Sound) : screen.Onward (screen.write (ofText goodbye)) ∧
    (screen.write (ofText goodbye)).row = screen.row+1 ∧ (screen.write (ofText goodbye)).col = 0 ∧
    ∃ rest, (screen.write (ofText goodbye)).lines.getD screen.row [] =
      screen.line.take screen.col ++ ofText "logout".toList ++ rest := by
  have typed := TerminalBuffer.write_typed sound "logout".toList (by simp [Visible])
  have broken := TerminalBuffer.write_broken typed.onward.sound
  have same : screen.write (ofText goodbye) = (screen.write (ofText "logout".toList)).write (ofText Text.crlf) :=
    TerminalBuffer.write_append screen "logout".toList Text.crlf
  rw [same]
  refine ⟨typed.onward.trans broken.onward,by rw [broken.row,typed.row],broken.col,
    (screen.write (ofText "logout".toList)).line.drop (screen.write (ofText "logout".toList)).col,?_⟩
  rw [broken.above screen.row (by rw [typed.row]; omega),← typed.line,List.take_append_drop]
  unfold TerminalBuffer.line
  rw [typed.row]

theorem PastGoodbye.parts (past : PastGoodbye prompt screen line) (sound : screen.Sound) :
    PastGoodbye prompt (screen.write (ofText goodbye)) [] := by
  obtain ⟨onward,_,col,_⟩ := write_goodbye sound
  apply past.onward onward
  rw [col]
  rfl

theorem AtPrompt.parts (at_ : AtPrompt prompt screen []) (sound : screen.Sound) :
    PastGoodbye prompt (screen.write (ofText goodbye)) [] := by
  obtain ⟨onward,row,col,rest,said⟩ := write_goodbye sound
  obtain ⟨front,long,shown⟩ := at_.shown
  refine ⟨by rw [row,at_.row]; omega,by rw [col]; rfl,UInt16.ofNat 0x6c,?_,by decide⟩
  rw [← at_.row,said,shown,show ofText [] = [] from rfl,List.append_nil,← long,List.append_assoc,List.drop_left]
  exact List.mem_append_left _ (by decide)

theorem visible_said (line : Text) (visible : ∀ c ∈ line, Visible c) (named : line.trim ≠ []) :
    ∃ unit ∈ ofText line, Text.isWhitespace (Char.ofNat unit.toNat) = false := by
  by_contra blank
  apply named
  have all : ∀ c ∈ line, Text.isWhitespace c = true := by
    intro c member
    by_contra other
    apply blank
    refine ⟨UInt16.ofNat c.toNat,?_,?_⟩
    · refine List.mem_flatMap.mpr ⟨c,member,?_⟩
      rw [ofChar_small c (visible c member).small]
      exact List.mem_singleton.mpr rfl
    · rw [unit_toNat (visible c member).small,Char.ofNat_toNat]
      simpa using other
  have start : line.trimStart = [] := List.dropWhile_eq_nil_iff.mpr all
  rw [Text.trim,start]
  rfl

-- A committed line stands behind its prompt, and the goodbye comes below it.
theorem AtPrompt.left (at_ : AtPrompt prompt screen line) (sound : screen.Sound) (visible : ∀ c ∈ line, Visible c)
    (named : line.trim ≠ []) : PastGoodbye prompt ((screen.write (ofText Text.crlf)).write (ofText goodbye)) [] := by
  have broken := TerminalBuffer.write_broken sound
  obtain ⟨front,long,shown⟩ := at_.shown
  obtain ⟨unit,member,seen⟩ := visible_said line visible named
  have past : PastGoodbye prompt (screen.write (ofText Text.crlf)) [] := by
    refine ⟨by rw [broken.row,at_.row]; omega,by rw [broken.col]; rfl,unit,?_,seen⟩
    have row : (screen.write (ofText Text.crlf)).lines.getD prompt.row [] = screen.line := by
      rw [broken.above prompt.row (by rw [at_.row]; omega),← at_.row]
      rfl
    rw [row,← List.take_append_drop screen.col screen.line,shown,← long,List.append_assoc,List.drop_left]
    exact List.mem_append_left _ member
  exact past.parts broken.sound

end Screen

theorem since_other (events : List Units) (other : isPrompt event = false) :
    sincePrompt (events ++ [event]) = sincePrompt events ++ [event] ∧ throughPrompt (events ++ [event]) = throughPrompt events := by
  constructor
  · exact List.rtakeWhile_concat_pos _ _ event (by simpa using other)
  · exact List.rdropWhile_concat_pos _ _ event (by simpa using other)

theorem since_prompt (events : List Units) (prompts : isPrompt event = true) :
    sincePrompt (events ++ [event]) = [] ∧ throughPrompt (events ++ [event]) = events ++ [event] := by
  constructor
  · exact List.rtakeWhile_concat_neg _ _ event (by simpa using prompts)
  · exact List.rdropWhile_concat_neg _ _ event (by simpa using prompts)

theorem getPrompt_prompts (vfs : VirtualFileSystem) : isPrompt (ofText (getPrompt vfs)) = true := by
  unfold getPrompt isPrompt
  simp only [ofText_append,Bool.and_eq_true,List.isPrefixOf_iff_prefix,List.isSuffixOf_iff_suffix]
  exact ⟨⟨_,(List.append_assoc ..).symm⟩,⟨_,rfl⟩⟩

theorem short_other (event : Units) (short : event.length < 22) : isPrompt event = false := by
  unfold isPrompt
  rw [Bool.and_eq_false_iff]
  refine Or.inl ?_
  rw [← Bool.not_eq_true,List.isPrefixOf_iff_prefix]
  intro starts
  have long := starts.length_le
  rw [show (ofText "root@ubuntu-server-01:".toList).length = 22 by decide] at long
  omega

theorem play_append (events : List Units) (event : Units) : play (events ++ [event]) = (play events).write event := by
  unfold play
  rw [List.foldl_append]
  rfl

theorem play_sound (texts : List Text) : (play (texts.map ofText)).Sound := by
  induction texts using List.reverseRecOn with
  | nil => exact TerminalBuffer.make_sound
  | append_singleton front last ih =>
    rw [List.map_append,List.map_singleton,play_append]
    exact (TerminalBuffer.write_onward ih last).sound

def screenOf (texts : List Text) : TerminalBuffer := play (texts.map ofText)

def promptOf (texts : List Text) : TerminalBuffer := play (throughPrompt (texts.map ofText))

-- A goodbye was shown after the last prompt.
def Parted (texts : List Text) : Prop := ofText goodbye ∈ sincePrompt (texts.map ofText)

instance (texts : List Text) : Decidable (Parted texts) := inferInstanceAs (Decidable (_ ∈ _))

-- The line of the editor is what the screen shows before the cursor.
structure Screened (texts : List Text) (line : Text) : Prop where
  visible : ∀ c ∈ line, Visible c
  prompted : ¬ Parted texts → AtPrompt (promptOf texts) (screenOf texts) line
  parted : Parted texts → PastGoodbye (promptOf texts) (screenOf texts) line

theorem screenOf_append (texts : List Text) (text : Text) : screenOf (texts ++ [text]) = (screenOf texts).write (ofText text) := by
  unfold screenOf
  rw [List.map_append,List.map_singleton,play_append]

theorem promptOf_other (texts : List Text) (text : Text) (other : isPrompt (ofText text) = false) :
    promptOf (texts ++ [text]) = promptOf texts := by
  unfold promptOf
  rw [List.map_append,List.map_singleton,(since_other _ other).2]

theorem parted_other (texts : List Text) (text : Text) (other : isPrompt (ofText text) = false) :
    Parted (texts ++ [text]) ↔ Parted texts ∨ ofText goodbye = ofText text := by
  unfold Parted
  rw [List.map_append,List.map_singleton,(since_other _ other).1,List.mem_append,List.mem_singleton]

theorem prompt_screened (texts : List Text) (vfs : VirtualFileSystem) : Screened (texts ++ [getPrompt vfs]) [] := by
  have prompts := getPrompt_prompts vfs
  have fresh : ¬ Parted (texts ++ [getPrompt vfs]) := by
    unfold Parted
    rw [List.map_append,List.map_singleton,(since_prompt _ prompts).1]
    exact List.not_mem_nil
  have same : promptOf (texts ++ [getPrompt vfs]) = screenOf (texts ++ [getPrompt vfs]) := by
    unfold promptOf screenOf
    rw [List.map_append,List.map_singleton,(since_prompt _ prompts).2]
  refine ⟨by simp,fun _ => ?_,fun parted => absurd parted fresh⟩
  rw [same]
  refine ⟨rfl,_,?_,(List.append_nil _).symm⟩
  rw [List.length_take]
  exact Nat.min_eq_left (play_sound (texts ++ [getPrompt vfs])).within

theorem Screened.typed (screened : Screened texts line) (visible : Visible c) : Screened (texts ++ [[c]]) (line ++ [c]) := by
  have single : (ofText [c]).length = 1 := ofText_length [c] (by simpa using visible.small)
  have other : isPrompt (ofText [c]) = false := short_other _ (by rw [single]; decide)
  have unlike : ofText goodbye ≠ ofText [c] := by
    intro same
    have long := congrArg List.length same
    rw [single] at long
    exact absurd long (by decide)
  refine ⟨?_,?_,?_⟩
  · rw [List.forall_mem_append]
    exact ⟨screened.visible,by simpa using visible⟩
  · rw [parted_other texts [c] other,screenOf_append,promptOf_other texts [c] other]
    exact fun open_ => (screened.prompted (fun parted => open_ (Or.inl parted))).typed (play_sound texts) visible
  · rw [parted_other texts [c] other,screenOf_append,promptOf_other texts [c] other]
    exact fun either => (screened.parted (either.resolve_right unlike)).typed (play_sound texts) visible

theorem Screened.erased (screened : Screened texts (line ++ [c])) : Screened (texts ++ [erasure]) line := by
  have other : isPrompt (ofText erasure) = false := short_other _ (by decide)
  have unlike : ofText goodbye ≠ ofText erasure := by decide
  obtain ⟨kept,last⟩ := List.forall_mem_append.mp screened.visible
  have visible : Visible c := last c (List.mem_singleton.mpr rfl)
  refine ⟨kept,?_,?_⟩
  · rw [parted_other texts erasure other,screenOf_append,promptOf_other texts erasure other]
    exact fun open_ => (screened.prompted (fun parted => open_ (Or.inl parted))).erased (play_sound texts) visible
  · rw [parted_other texts erasure other,screenOf_append,promptOf_other texts erasure other]
    exact fun either => (screened.parted (either.resolve_right unlike)).erased (play_sound texts) visible

theorem goodbye_other : isPrompt (ofText goodbye) = false := short_other _ (by decide)

theorem goodbye_screened (texts : List Text) (past : PastGoodbye (promptOf texts) (screenOf (texts ++ [goodbye])) []) :
    Screened (texts ++ [goodbye]) [] := by
  have parted : Parted (texts ++ [goodbye]) := (parted_other texts goodbye goodbye_other).mpr (Or.inr rfl)
  refine ⟨by simp,fun open_ => absurd parted open_,fun _ => ?_⟩
  rw [promptOf_other texts goodbye goodbye_other]
  exact past

theorem Screened.dismissed (screened : Screened texts []) : Screened (texts ++ [goodbye]) [] := by
  apply goodbye_screened
  rw [screenOf_append]
  by_cases parted : Parted texts
  · exact (screened.parted parted).parts (play_sound texts)
  · exact (screened.prompted parted).parts (play_sound texts)

theorem Screened.left (screened : Screened texts line) (named : line.trim ≠ []) :
    Screened (texts ++ [Text.crlf] ++ [goodbye]) [] := by
  have other : isPrompt (ofText Text.crlf) = false := short_other _ (by decide)
  apply goodbye_screened
  rw [promptOf_other texts Text.crlf other,screenOf_append,screenOf_append]
  by_cases parted : Parted texts
  · have broken := TerminalBuffer.write_broken (play_sound texts)
    have below : PastGoodbye (promptOf texts) ((screenOf texts).write (ofText Text.crlf)) [] := by
      apply (screened.parted parted).onward broken.onward
      rw [broken.col]
      rfl
    exact below.parts broken.sound
  · exact (screened.prompted parted).left (play_sound texts) screened.visible named

-- The editor and the replay stay in step with each edit.
theorem edits_screened (edits : Edits line after said) (screened : Screened texts line) : Screened (texts ++ said) after := by
  cases edits with
  | keeps _ => simpa using screened
  | types _ c visible => exact screened.typed visible
  | erases _ some_ =>
    rw [← List.dropLast_append_getLast some_] at screened
    exact screened.erased
  | prompts _ front vfs =>
    rw [← List.append_assoc]
    exact prompt_screened (texts ++ front) vfs
  | leaves _ named =>
    rw [← List.singleton_append,← List.append_assoc]
    exact screened.left named
  | dismisses => exact screened.dismissed

theorem Screened.suffix (screened : Screened texts line) : ofText line <:+ (screenOf texts).line.take (screenOf texts).col := by
  by_cases parted : Parted texts
  · rw [(screened.parted parted).shown]
  · obtain ⟨front,_,shown⟩ := (screened.prompted parted).shown
    rw [shown]
    exact List.suffix_append front _

theorem AtPrompt.entered (at_ : AtPrompt prompt screen line) (sound : screen.Sound) :
    (textBefore screen.lines screen.row screen.col).drop (textBefore screen.lines prompt.row prompt.col).length = ofText line := by
  obtain ⟨front,long,shown⟩ := at_.shown
  have within : prompt.col ≤ screen.col := by
    have length := congrArg List.length shown
    rw [List.length_take,Nat.min_eq_left sound.within,List.length_append,long] at length
    omega
  have before : screen.line.take prompt.col = front := by
    rw [← Nat.min_eq_left within,← List.take_take,shown,← long,List.take_left]
  unfold textBefore
  rw [← at_.row,show screen.lines.getD screen.row [] = screen.line from rfl,before,shown,← List.append_assoc,List.drop_left]

theorem PastGoodbye.entered (past : PastGoodbye prompt screen line) (sound : screen.Sound) :
    ∃ said between, (textBefore screen.lines screen.row screen.col).drop
        (textBefore screen.lines prompt.row prompt.col).length = said ++ 0x0a :: (between ++ ofText line) ∧
      ∃ unit ∈ said, Text.isWhitespace (Char.ofNat unit.toNat) = false := by
  have inside : prompt.row < (screen.lines.take screen.row).length := by
    rw [List.length_take,sound.rows]
    have below := past.row
    omega
  obtain ⟨later,rows⟩ : ∃ later, screen.lines.take screen.row =
      screen.lines.take prompt.row ++ screen.lines.getD prompt.row [] :: later := by
    refine ⟨(screen.lines.take screen.row).drop (prompt.row+1),?_⟩
    have row : (screen.lines.take screen.row)[prompt.row] = screen.lines.getD prompt.row [] := by
      rw [List.getElem_take,List.getD_eq_getElem?_getD,List.getElem?_eq_getElem (by rw [List.length_take] at inside; omega)]
      rfl
    rw [← row,← List.drop_eq_getElem_cons inside,
      show screen.lines.take prompt.row = (screen.lines.take screen.row).take prompt.row by
        rw [List.take_take,Nat.min_eq_left (Nat.le_of_lt past.row)],List.take_append_drop]
  refine ⟨(screen.lines.getD prompt.row []).drop prompt.col,later.flatMap (· ++ [0x0a]),?_,past.said⟩
  have split_ := List.take_append_drop prompt.col (screen.lines.getD prompt.row [])
  unfold textBefore
  rw [show screen.lines.getD screen.row [] = screen.line from rfl,past.shown,rows,List.flatMap_append,List.flatMap_cons]
  generalize List.drop prompt.col (screen.lines.getD prompt.row []) = rest at split_ ⊢
  generalize List.take prompt.col (screen.lines.getD prompt.row []) = front at split_ ⊢
  rw [← split_]
  simp only [List.append_assoc]
  rw [← List.append_assoc,List.drop_left]
  rfl

theorem trimmed_middle (front rest : Text) (c : Char) (before : ∃ seen ∈ front, Text.isWhitespace seen = false)
    (after : ∃ seen ∈ rest, Text.isWhitespace seen = false) : c ∈ (front ++ c :: rest).trim := by
  have kept : ∀ text : Text, (∃ seen ∈ text, Text.isWhitespace seen = false) →
      (text.dropWhile Text.isWhitespace).isEmpty = false := by
    intro text held
    obtain ⟨seen,member,visible⟩ := held
    rw [List.isEmpty_eq_false_iff]
    intro none
    have blank := List.dropWhile_eq_nil_iff.mp none seen member
    rw [visible] at blank
    cases blank
  have start : (front ++ c :: rest).trimStart = front.dropWhile Text.isWhitespace ++ c :: rest := by
    rw [Text.trimStart,List.dropWhile_append,kept front before]
    rfl
  obtain ⟨seen,member,visible⟩ := after
  have ending := kept rest.reverse ⟨seen,List.mem_reverse.mpr member,visible⟩
  rw [Text.trim,start,Text.trimEnd,List.rdropWhile,List.reverse_append,List.reverse_cons,List.append_assoc,List.dropWhile_append,
    ending]
  simp

theorem trim_line (line : Text) (visible : ∀ c ∈ line, Visible c) : '\n' ∉ line.trim := by
  intro held
  have inside : '\n' ∈ line :=
    (List.dropWhile_sublist Text.isWhitespace).subset ((List.rdropWhile_prefix Text.isWhitespace _).subset held)
  exact absurd (visible _ inside) (by decide)

theorem Screened.entered (screened : Screened texts line) (named : line.trim ≠ []) :
    (toText (enteredText (texts.map ofText))).trim = line.trim ↔ ¬ Parted texts := by
  have small : ∀ c ∈ line, c.toNat < 0x10000 := fun c member => (screened.visible c member).small
  constructor
  · intro same parted
    obtain ⟨said,between,entered,spoken,member,seen⟩ := (screened.parted parted).entered (play_sound texts)
    have broken : '\n' ∈ (toText (enteredText (texts.map ofText))).trim := by
      have shown : toText (enteredText (texts.map ofText)) =
          toText said ++ '\n' :: (toText between ++ toText (ofText line)) := by
        rw [show enteredText (texts.map ofText) = said ++ 0x0a :: (between ++ ofText line) from entered,toText_append]
        simp only [toText,List.map_cons,List.map_append]
        rfl
      rw [shown]
      obtain ⟨unit,typed,visible⟩ := visible_said line screened.visible named
      refine trimmed_middle _ _ _ ⟨_,List.mem_map_of_mem member,seen⟩ ⟨_,?_,visible⟩
      exact List.mem_append_right _ (List.mem_map_of_mem typed)
    rw [same] at broken
    exact trim_line line screened.visible broken
  · intro open_
    have entered : enteredText (texts.map ofText) = ofText line := (screened.prompted open_).entered (play_sound texts)
    rw [entered,toText_ofText line small]

end AegisHoneypot.ReplayScreen
