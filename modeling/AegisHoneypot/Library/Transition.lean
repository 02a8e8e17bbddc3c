import Mathlib.Data.List.Basic

-- Finite runs of a labelled transition relation, extended at the end, and the
-- rule by which an invariant of one step becomes an invariant of every run.
namespace Transition
variable {S A : Type}

inductive Runs (step : S → A → S → Prop) : S → List A → S → Prop where
  | nil : Runs step s [] s
  | snoc : Runs step start earlier middle → step middle action next →
      Runs step start (earlier ++ [action]) next

variable {step : S → A → S → Prop}

theorem Runs.one (taken : step before action after) : Runs step before [action] after :=
  Runs.snoc Runs.nil taken

theorem Runs.append (left : Runs step before earlier middle) (right : Runs step middle later after) :
    Runs step before (earlier ++ later) after := by
  induction right with
  | nil => simpa using left
  | snoc _ taken ih => rw [← List.append_assoc]; exact .snoc ih taken

theorem Runs.stays (path : Runs step before [] after) : after = before := by
  generalize none : [] = actions at path
  cases path with
  | nil => rfl
  | snoc => exact absurd none.symm (List.append_ne_nil_of_right_ne_nil _ (List.cons_ne_nil _ _))

theorem Runs.last (path : Runs step before (earlier ++ [action]) after) :
    ∃ middle, Runs step before earlier middle ∧ step middle action after := by
  generalize all : earlier ++ [action] = actions at path
  cases path with
  | nil => exact absurd all (List.append_ne_nil_of_right_ne_nil _ (List.cons_ne_nil _ _))
  | snoc path taken =>
    obtain ⟨rfl,last⟩ := List.append_inj' all rfl
    cases last
    exact ⟨_,path,taken⟩

theorem Runs.preserves {invariant : S → Prop} (initial : invariant before)
    (preserved : ∀ s action next, invariant s → step s action next → invariant next)
    (path : Runs step before actions after) : invariant after := by
  induction path with
  | nil => exact initial
  | snoc _ taken ih => exact preserved _ _ _ ih taken

-- A loop whose body answers the next state, or nothing at its `break`: where it
-- ends and after how many turns.
inductive Loops (turn : S → Option S) : S → Nat → S → Prop where
  | stop : turn s = none → Loops turn s 0 s
  | again : turn s = some next → Loops turn next turns last → Loops turn s (turns+1) last

variable {turn : S → Option S}

theorem Loops.unique (one : Loops turn s turns last) (two : Loops turn s others other) : turns = others ∧ last = other := by
  induction one generalizing others with
  | stop ended =>
    cases two with
    | stop _ => exact ⟨rfl,rfl⟩
    | again turned _ => cases ended.symm.trans turned
  | again turned _ ih =>
    cases two with
    | stop ended => cases turned.symm.trans ended
    | again also rest =>
      cases turned.symm.trans also
      obtain ⟨rfl,rfl⟩ := ih rest
      exact ⟨rfl,rfl⟩

-- What every turn costs bounds how many there are.
theorem Loops.bounded {size : S → Nat} {cost : Nat} (spends : ∀ s next, turn s = some next → size next + cost ≤ size s)
    (loop : Loops turn s turns last) : cost * turns ≤ size s := by
  induction loop with
  | stop _ => exact Nat.zero_le _
  | again turned _ ih =>
    have spent := spends _ _ turned
    rw [Nat.mul_succ]
    omega

-- A machine that answers every action: what it says over a run and where it ends.
def answers {O : Type} (run : S → A → O × S) (s : S) : List A → List O × S
  | [] => ([],s)
  | action :: rest => ((run s action).1 :: (answers run (run s action).2 rest).1,(answers run (run s action).2 rest).2)

theorem answers_append {O : Type} (run : S → A → O × S) (s : S) (earlier later : List A) :
    answers run s (earlier ++ later) = ((answers run s earlier).1 ++ (answers run (answers run s earlier).2 later).1,
      (answers run (answers run s earlier).2 later).2) := by
  induction earlier generalizing s with
  | nil => rfl
  | cons action rest ih =>
    rw [List.cons_append,answers,ih]
    rfl

theorem answers_map {C O : Type} (run : S → A → O × S) (f : C → A) (s : S) (actions : List C) :
    answers run s (actions.map f) = answers (fun s action => run s (f action)) s actions := by
  induction actions generalizing s with
  | nil => rfl
  | cons action rest ih =>
    rw [List.map_cons,answers,ih]
    rfl

-- A machine that gives the answers of another one, as they are seen, from
-- related states.
theorem answers_simulate {T O P : Type} {s : S} {t : T} {run : S → A → O × S} {other : T → A → P × T} (seen : O → P)
    {related : S → T → Prop} (each : ∀ s t action, related s t →
      seen (run s action).1 = (other t action).1 ∧ related (run s action).2 (other t action).2)
    (actions : List A) (now : related s t) : (answers run s actions).1.map seen = (answers other t actions).1 ∧
      related (answers run s actions).2 (answers other t actions).2 := by
  induction actions generalizing s t with
  | nil => exact ⟨rfl,now⟩
  | cons action rest ih =>
    obtain ⟨same,next⟩ := each s t action now
    obtain ⟨later,last⟩ := ih next
    exact ⟨congrArg₂ List.cons same later,last⟩

end Transition
