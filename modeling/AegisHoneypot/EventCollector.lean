import AegisHoneypot.Library.Utf8Text
import Mathlib.Logic.Function.Basic

namespace AegisHoneypot.EventCollector
open Utf8Text

def maxLogBytes : Nat := 256 * 1024 * 1024
def logGenerations : Nat := 4

-- The log file and its generations: number 0 is `attacks.json` itself and
-- number n is `attacks.json.n`.
abbrev LogDir := Nat → Option Bytes

def LogDir.empty : LogDir := fun _ => none

def LogDir.rename (dir : LogDir) (source target : Nat) : LogDir :=
  match dir source with
  | none => dir
  | some content => Function.update (Function.update dir source none) target (some content)

-- Which of the file operations of a rotation fail. Only the last rename is
-- reported, the others are dropped with `let _ =`.
structure RotateFaults where
  removal : Bool
  shift : Nat → Bool
  current : Bool

def RotateFaults.never : RotateFaults := ⟨false,fun _ => false,false⟩

def shiftGenerations (faults : RotateFaults) : Nat → LogDir → LogDir
  | 0,dir => dir
  | n+1,dir => shiftGenerations faults n (if faults.shift (n+1) then dir else dir.rename (n+1) (n+2))

def rotateLog (faults : RotateFaults) (dir : LogDir) : Bool × LogDir :=
  let cleared := if faults.removal then dir else Function.update dir logGenerations none
  let shifted := shiftGenerations faults (logGenerations-1) cleared
  if faults.current || (shifted 0).isNone then (false,shifted) else (true,shifted.rename 0 1)

-- The file is created when it is missing; its size seeds the counter of
-- written bytes, so that the accounting survives a restart.
def openLog (dir : LogDir) : LogDir × Nat :=
  let content := (dir 0).getD []
  (Function.update dir 0 (some content),content.length)

def appendLine (dir : LogDir) (line : Line) : LogDir :=
  Function.update dir 0 (some ((dir 0).getD [] ++ line.bytes))

-- Where the loop of `EventCollector::run` stands: about to receive, with the
-- bytes it counts for the file, about to rotate, or about to open it again.
inductive Phase where
  | logging (written : Nat)
  | full
  | reopening
  deriving DecidableEq, Repr

def afterAppend (written : Nat) (line : Line) : Phase :=
  if maxLogBytes ≤ written + line.bytes.length then .full else .logging (written + line.bytes.length)

-- Where the next generation is free, a rename moves the file there or leaves
-- both names without one.
theorem rename_next (dir : LogDir) (n : Nat) (free : dir (n+1) = none) :
    dir.rename n (n+1) = Function.update (Function.update dir n none) (n+1) (dir n) := by
  unfold LogDir.rename
  cases held : dir n with
  | some content => rfl
  | none =>
    funext m
    by_cases next : m = n+1
    · subst next
      simp [free]
    · by_cases same : m = n
      · subst same
        simp [held]
      · simp [next,same]

theorem shift_exact (n : Nat) (dir : LogDir) (free : dir (n+1) = none) (m : Nat) :
    shiftGenerations .never n dir m = if m = 0 ∨ n+1 < m then dir m else if m = 1 then none else dir (m-1) := by
  induction n generalizing dir with
  | zero =>
    by_cases first : m = 1
    · subst first
      simpa [shiftGenerations] using free
    · rw [shiftGenerations,if_pos (by omega)]
  | succ n ih =>
    have moved : (Function.update (Function.update dir (n+1) none) (n+2) (dir (n+1)) : LogDir) (n+1) = none := by simp
    have step : shiftGenerations .never (n+1) dir = shiftGenerations .never n (dir.rename (n+1) (n+2)) := rfl
    rw [step,rename_next dir (n+1) free,ih _ moved]
    by_cases outside : m = 0 ∨ n+2 < m
    · rw [if_pos (by omega),if_pos outside,Function.update_of_ne (by omega),Function.update_of_ne (by omega)]
    · rw [if_neg outside]
      by_cases top : m = n+2
      · subst top
        rw [if_pos (by omega),if_neg (by omega),Function.update_self]
        rfl
      · rw [if_neg (by omega)]
        split
        · rfl
        · rw [Function.update_of_ne (by omega),Function.update_of_ne (by omega)]

-- What a rotation does to each name: the current file becomes the first
-- generation, every generation moves up, the last one is gone.
theorem rotateLog_exact (dir : LogDir) (present : dir 0 = some content) (m : Nat) :
    (rotateLog .never dir).2 m =
      if m = 0 then none else if m = 1 then some content else if m ≤ logGenerations then dir (m-1) else dir m := by
  have free : (Function.update dir logGenerations none : LogDir) (logGenerations-1+1) = none := Function.update_self ..
  have shifted := shift_exact (logGenerations-1) (Function.update dir logGenerations none) free
  have current : shiftGenerations .never (logGenerations-1) (Function.update dir logGenerations none) 0 = some content := by
    rw [shifted 0]
    exact present
  have first : shiftGenerations .never (logGenerations-1) (Function.update dir logGenerations none) 1 = none := by
    rw [shifted 1]
    rfl
  have removal : RotateFaults.never.removal = false := rfl
  have kept : RotateFaults.never.current = false := rfl
  simp only [rotateLog,removal,kept,Bool.false_eq_true,if_false,Bool.false_or,current,Option.isNone_some]
  rw [rename_next _ 0 first,current]
  by_cases one : m = 1
  · simp [one]
  · by_cases zero : m = 0
    · simp [zero]
    · rw [Function.update_of_ne one,Function.update_of_ne zero,shifted m,if_neg zero,if_neg one]
      have four : logGenerations = 4 := rfl
      split
      · rw [Function.update_of_ne (by omega),if_neg (by omega)]
      · rw [Function.update_of_ne (by omega),if_pos (by omega)]

theorem rotateLog_current (dir : LogDir) (present : dir 0 = some content) :
    (rotateLog .never dir).2 0 = none := by
  rw [rotateLog_exact dir present]
  rfl

end AegisHoneypot.EventCollector
