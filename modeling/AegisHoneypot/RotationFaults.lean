import AegisHoneypot.EventCollector

namespace AegisHoneypot.EventCollector
open Utf8Text

-- The renames of a rotation by the number of the file they move: number 0 is
-- the one of `attacks.json`, the only one whose error is returned.
def RotateFaults.fails (faults : RotateFaults) : Nat → Bool
  | 0 => faults.current
  | n+1 => faults.shift (n+1)

def Moves (faults : RotateFaults) (dir : LogDir) (n : Nat) : Prop :=
  (dir n).isSome = true ∧ faults.fails n = false

instance : Decidable (Moves faults dir n) := inferInstanceAs (Decidable (_ ∧ _))

theorem moves_same {dir other : LogDir} (same : other n = dir n) : Moves faults other n ↔ Moves faults dir n := by
  unfold Moves
  rw [same]

-- A turn of the loop: the file moves on top of the next one, or nothing happens.
def turned (faults : RotateFaults) (dir : LogDir) (n : Nat) : LogDir :=
  if Moves faults dir n then Function.update (Function.update dir n none) (n+1) (dir n) else dir

theorem turn_faulty (faults : RotateFaults) (dir : LogDir) (n : Nat) :
    (if faults.fails n then dir else dir.rename n (n+1)) = turned faults dir n := by
  by_cases failed : faults.fails n = true
  · simp [failed,turned,Moves]
  · rcases held : dir n with _ | content
    · simp [failed,turned,Moves,LogDir.rename,held]
    · simp [failed,turned,Moves,LogDir.rename,held]

theorem turned_other (dir : LogDir) (source : m ≠ n) (target : m ≠ n+1) : turned faults dir n m = dir m := by
  unfold turned
  split
  · rw [Function.update_of_ne target,Function.update_of_ne source]
  · rfl

theorem turned_source (dir : LogDir) : turned faults dir n n = if Moves faults dir n then none else dir n := by
  unfold turned
  split
  · rw [Function.update_of_ne (by omega),Function.update_self]
  · rfl

theorem turned_target (dir : LogDir) : turned faults dir n (n+1) = if Moves faults dir n then dir n else dir (n+1) := by
  unfold turned
  split
  · rw [Function.update_self]
  · rfl

-- What stands under a name when the files from `most` down to `least` had
-- their turn: the file from below it, or nothing if it moved away.
def shifted (faults : RotateFaults) (dir : LogDir) (least most m : Nat) : Option Bytes :=
  if least < m ∧ m ≤ most+1 ∧ Moves faults dir (m-1) then dir (m-1)
  else if least ≤ m ∧ m ≤ most ∧ Moves faults dir m then none
  else dir m

theorem shifted_turned (faults : RotateFaults) (dir : LogDir) (order : least ≤ most+1) (m : Nat) :
    shifted faults (turned faults dir (most+1)) least most m = shifted faults dir least (most+1) m := by
  have below : ∀ k, k ≤ most → turned faults dir (most+1) k = dir k :=
    fun k bound => turned_other dir (by omega) (by omega)
  rcases Nat.lt_trichotomy m (most+1) with low | rfl | high
  · have here := below m (by omega)
    have previous := below (m-1) (by omega)
    have upper : m ≤ most+1 ↔ m ≤ most+1+1 := by omega
    have lower : m ≤ most ↔ m ≤ most+1 := by omega
    simp only [shifted,moves_same here,moves_same previous,here,previous,upper,lower]
  · have previous := below most (by omega)
    have past : ¬ most+1 ≤ most := by omega
    simp [shifted,moves_same previous,previous,turned_source,order,past]
  · by_cases next : m = most+2
    · subst next
      have past : ¬ most+2 ≤ most+1 := by omega
      have later : ¬ most+2 ≤ most := by omega
      have start : least < most+2 := by omega
      simp [shifted,past,later,start,turned_target]
    · have far : turned faults dir (most+1) m = dir m := turned_other dir (by omega) next
      have past : ¬ m ≤ most+1 := by omega
      have later : ¬ m ≤ most := by omega
      have last : ¬ m ≤ most+1+1 := by omega
      simp [shifted,past,later,last,far]

theorem shift_faulty (faults : RotateFaults) (n : Nat) (dir : LogDir) (m : Nat) :
    shiftGenerations faults n dir m = shifted faults dir 1 n m := by
  induction n generalizing dir with
  | zero =>
    have above : ¬ (1 < m ∧ m ≤ 0+1 ∧ Moves faults dir (m-1)) := by omega
    have inside : ¬ (1 ≤ m ∧ m ≤ 0 ∧ Moves faults dir m) := by omega
    simp only [shiftGenerations,shifted,if_neg above,if_neg inside]
  | succ n ih =>
    have turn : (if faults.shift (n+1) then dir else dir.rename (n+1) (n+2)) = turned faults dir (n+1) :=
      turn_faulty faults dir (n+1)
    rw [shiftGenerations,turn,ih,shifted_turned faults dir (by omega)]

theorem shifted_current (faults : RotateFaults) (dir : LogDir) (most m : Nat) :
    turned faults (shifted faults dir 1 most) 0 m = shifted faults dir 0 most m := by
  have current : shifted faults dir 1 most 0 = dir 0 := by simp [shifted]
  match m with
  | 0 => simp [turned_source,moves_same current,shifted]
  | 1 => simp [turned_target,moves_same current,shifted]
  | m+2 =>
    rw [turned_other _ (by omega) (by omega)]
    simp [shifted]

def cleared (faults : RotateFaults) (dir : LogDir) : LogDir :=
  if faults.removal then dir else Function.update dir logGenerations none

-- Every outcome of a rotation at once.
theorem rotateLog_faulty (faults : RotateFaults) (dir : LogDir) (m : Nat) :
    (rotateLog faults dir).2 m = shifted faults (cleared faults dir) 0 (logGenerations-1) m := by
  have loop : shiftGenerations faults (logGenerations-1) (cleared faults dir) =
      shifted faults (cleared faults dir) 1 (logGenerations-1) := funext (shift_faulty faults _ _)
  have turn := turn_faulty faults (shifted faults (cleared faults dir) 1 (logGenerations-1)) 0
  have current : (rotateLog faults dir).2 = if faults.fails 0 then shifted faults (cleared faults dir) 1 (logGenerations-1)
      else LogDir.rename (shifted faults (cleared faults dir) 1 (logGenerations-1)) 0 (0+1) := by
    rw [← loop]
    change (if faults.current || (shiftGenerations faults (logGenerations-1) (cleared faults dir) 0).isNone then
        (false,shiftGenerations faults (logGenerations-1) (cleared faults dir))
      else (true,LogDir.rename (shiftGenerations faults (logGenerations-1) (cleared faults dir)) 0 1)).2 = _
    by_cases failed : faults.current = true
    · simp [failed,RotateFaults.fails]
    · cases held : shiftGenerations faults (logGenerations-1) (cleared faults dir) 0 with
      | none => simp [failed,RotateFaults.fails,LogDir.rename,held]
      | some content => simp [failed,RotateFaults.fails]
  rw [current,turn,shifted_current]

def SameFiles (dir other : LogDir) : Prop := ∀ n, (other n).isSome = (dir n).isSome

-- The content of `attacks.json` and of all generations but the oldest.
def KeepsContents (faults : RotateFaults) (dir : LogDir) : Prop :=
  ∀ n content, n < logGenerations → dir n = some content → ∃ m, (rotateLog faults dir).2 m = some content

-- A file that stayed where it was gets the one before it on top.
def OverwritesUnshifted (faults : RotateFaults) (dir : LogDir) : Prop :=
  ∃ n, n+1 < logGenerations ∧ (dir (n+1)).isSome = true ∧ faults.fails (n+1) = true ∧ Moves faults dir n

theorem cleared_kept (faults : RotateFaults) (dir : LogDir) (kept : n < logGenerations) :
    cleared faults dir n = dir n := by
  unfold cleared
  split
  · rfl
  · rw [Function.update_of_ne (by omega)]

theorem moves_kept (kept : n < logGenerations) : Moves faults (cleared faults dir) n ↔ Moves faults dir n :=
  moves_same (cleared_kept faults dir kept)

theorem file_arrives (kept : n < logGenerations) (moves : Moves faults dir n) :
    (rotateLog faults dir).2 (n+1) = dir n := by
  have four : logGenerations = 4 := rfl
  rw [rotateLog_faulty,shifted,if_pos ⟨by omega,by omega,(moves_kept kept).mpr moves⟩]
  exact cleared_kept faults dir kept

theorem file_stays (kept : n < logGenerations) (still : ¬ Moves faults dir n)
    (alone : ∀ k, n = k+1 → ¬ Moves faults dir k) : (rotateLog faults dir).2 n = dir n := by
  have four : logGenerations = 4 := rfl
  have above : ¬ (0 < n ∧ n ≤ logGenerations-1+1 ∧ Moves faults (cleared faults dir) (n-1)) := by
    intro moved
    exact alone (n-1) (by omega) ((moves_kept (by omega)).mp moved.2.2)
  have away : ¬ (0 ≤ n ∧ n ≤ logGenerations-1 ∧ Moves faults (cleared faults dir) n) :=
    fun moved => still ((moves_kept kept).mp moved.2.2)
  rw [rotateLog_faulty,shifted,if_neg above,if_neg away]
  exact cleared_kept faults dir kept

-- Where each file found afterwards came from.
theorem file_origin (found : (rotateLog faults dir).2 m = some content) :
    (∃ n, m = n+1 ∧ n < logGenerations ∧ Moves faults dir n ∧ dir n = some content) ∨
      (dir m = some content ∧ (m < logGenerations → ¬ Moves faults dir m) ∧
        ∀ n, m = n+1 → n < logGenerations → ¬ Moves faults dir n) := by
  have four : logGenerations = 4 := rfl
  rw [rotateLog_faulty,shifted] at found
  split at found
  · rename_i moved
    have kept : m-1 < logGenerations := by omega
    rw [cleared_kept faults dir kept] at found
    exact .inl ⟨m-1,by omega,kept,(moves_kept kept).mp moved.2.2,found⟩
  · rename_i above
    split at found
    · cases found
    · rename_i away
      refine .inr ⟨?_,?_,?_⟩
      · unfold cleared at found
        split at found
        · exact found
        · by_cases oldest : m = logGenerations
          · subst oldest
            simp at found
          · rwa [Function.update_of_ne oldest] at found
      · intro kept moves
        exact away ⟨by omega,by omega,(moves_kept kept).mpr moves⟩
      · intro n next kept moves
        exact above ⟨by omega,by omega,(moves_kept (by omega)).mpr (by rwa [next,Nat.add_sub_cancel])⟩

theorem sameFiles_moves (same : SameFiles dir other) : Moves faults other n ↔ Moves faults dir n := by
  unfold Moves
  rw [same n]

theorem unshifted_kept (none : ¬ OverwritesUnshifted faults dir) : KeepsContents faults dir := by
  intro n content kept held
  by_cases moves : Moves faults dir n
  · exact ⟨n+1,by rw [file_arrives kept moves,held]⟩
  · refine ⟨n,?_⟩
    rw [file_stays kept moves,held]
    intro k next before
    subst next
    have present : (dir (k+1)).isSome = true := by simp [held]
    have failed : faults.fails (k+1) = true := by
      by_contra worked
      exact moves ⟨present,by simpa using worked⟩
    exact none ⟨k,kept,present,failed,before⟩

-- Contents that tell the files of a directory apart.
def numbered (dir : LogDir) : LogDir := fun n => (dir n).map (fun _ => List.replicate n 0x20)

theorem numbered_same (dir : LogDir) : SameFiles dir (numbered dir) := by
  intro n
  simp [numbered]

theorem numbered_apart (held : numbered dir n = some (List.replicate m 0x20)) : n = m := by
  obtain ⟨content,_,equal⟩ := Option.map_eq_some_iff.mp held
  simpa using congrArg List.length equal

theorem overwritten_lost (lost : OverwritesUnshifted faults dir) : ¬ KeepsContents faults (numbered dir) := by
  obtain ⟨n,kept,present,failed,before⟩ := lost
  intro keeps
  obtain ⟨content,held⟩ := Option.isSome_iff_exists.mp present
  have stored : numbered dir (n+1) = some (List.replicate (n+1) 0x20) := by simp [numbered,held]
  obtain ⟨m,found⟩ := keeps (n+1) _ kept stored
  have moves : Moves faults (numbered dir) n := (sameFiles_moves (numbered_same dir)).mpr before
  rcases file_origin found with ⟨k,_,_,moved,equal⟩ | ⟨equal,_,alone⟩
  · rw [numbered_apart equal] at moved
    cases failed.symm.trans moved.2
  · exact alone n (numbered_apart equal) (by omega) moves

theorem rotation_keeps_contents_exactly (faults : RotateFaults) (dir : LogDir) :
    (∀ other, SameFiles dir other → KeepsContents faults other) ↔ ¬ OverwritesUnshifted faults dir := by
  constructor
  · intro keeps lost
    exact overwritten_lost lost (keeps (numbered dir) (numbered_same dir))
  · intro none other same
    refine unshifted_kept ?_
    intro lost
    obtain ⟨n,kept,present,failed,before⟩ := lost
    exact none ⟨n,kept,by rw [← same]; exact present,failed,(sameFiles_moves same).mp before⟩

-- The rename of `.2` fails, the one of `.1` does not.
def secondStuck : RotateFaults := ⟨false,fun n => n == 2,false⟩

def fourFiles : LogDir := numbered (fun n => if n < logGenerations then some [] else none)

theorem stuck_generation_is_overwritten : ¬ KeepsContents secondStuck fourFiles :=
  overwritten_lost ⟨1,by decide,rfl,rfl,rfl,rfl⟩

end AegisHoneypot.EventCollector
