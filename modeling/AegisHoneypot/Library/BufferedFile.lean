import AegisHoneypot.Library.Transition
import AegisHoneypot.Library.Utf8Text
import Mathlib.Data.List.Infix

-- A file behind a buffered writer. A crash leaves what is on the disk, anything
-- between what the last flush made sure of and what was written.
namespace BufferedFile
open Transition
open Utf8Text (Bytes)

inductive Call where
  | write (data : Bytes)
  | flush

inductive Action where
  | call (call : Call)
  | internal

def Action.call? : Action → Option Call
  | .call made => some made
  | .internal => none

def calls (actions : List Action) : List Call := actions.filterMap Action.call?

def Call.bytes : Call → Bytes
  | .write data => data
  | .flush => []

def bytesOf (calls : List Call) : Bytes := calls.flatMap Call.bytes

theorem calls_append (one two : List Action) : calls (one ++ two) = calls one ++ calls two := List.filterMap_append

theorem bytesOf_append (one two : List Call) : bytesOf (one ++ two) = bytesOf one ++ bytesOf two := List.flatMap_append

-- What a writer promises whose calls are made one after the other, each once the
-- one before it has come to its end, and none of which fails: its file is only
-- added to and holds a first part of what was written, and a flush that has come
-- to its end has put all of it there.
structure Writer where
  State : Type
  fresh : State
  Step : State → Action → State → Prop
  Idle : State → Prop
  disk : State → Bytes
  ordered : ∀ actions state, Runs Step fresh actions state → disk state <+: bytesOf (calls actions)
  grows : ∀ before action after, Step before action after → disk before <+: disk after
  flushed : ∀ actions state, Runs Step fresh actions state → (calls actions).getLast? = some .flush → Idle state →
    bytesOf (calls actions) <+: disk state

section Crash
variable {writer : Writer}

theorem run_grows (path : Runs writer.Step before actions after) : writer.disk before <+: writer.disk after := by
  induction path with
  | nil => exact List.prefix_rfl
  | snoc _ taken ih => exact ih.trans (writer.grows _ _ _ taken)

-- What a crash leaves: a first part of what was written, with everything that
-- was asked for before a flush that had come to its end.
theorem crash_keeps_flushed (first : Runs writer.Step writer.fresh earlier handled)
    (last : (calls earlier).getLast? = some .flush) (idle : writer.Idle handled)
    (more : Runs writer.Step handled later crashed) :
    bytesOf (calls earlier) <+: writer.disk crashed ∧ writer.disk crashed <+: bytesOf (calls earlier ++ calls later) := by
  have inside := writer.ordered _ _ (first.append more)
  rw [calls_append] at inside
  exact ⟨(writer.flushed _ _ first last idle).trans (run_grows more),inside⟩

end Crash

-- A writer that may hold everything back until it is flushed, and passes it on
-- in pieces of any size.
structure Backlog where
  disk : Bytes
  pending : Bytes
  flushing : Bool

namespace Backlog

inductive Step : Backlog → Action → Backlog → Prop where
  | write : before.flushing = false → Step before (.call (.write data)) {before with pending := before.pending ++ data}
  | flush : before.flushing = false → Step before (.call .flush) {before with flushing := true}
  | land : Step before .internal
      {before with disk := before.disk ++ before.pending.take count,pending := before.pending.drop count}
  | flushed : before.flushing = true → before.pending = [] → Step before .internal {before with flushing := false}

def fresh : Backlog := ⟨[],[],false⟩

structure Sound (made : List Call) (state : Backlog) : Prop where
  account : bytesOf made = state.disk ++ state.pending
  last : made.getLast? = some .flush → state.flushing = true ∨ state.pending = []

theorem run_sound (path : Runs Step fresh actions state) : Sound (calls actions) state := by
  induction path with
  | nil => exact ⟨rfl,nofun⟩
  | snoc _ taken ih =>
    rw [calls_append]
    cases taken with
    | write _ =>
      refine ⟨?_,by simp [calls,Action.call?]⟩
      rw [bytesOf_append,ih.account,List.append_assoc]
      simp [calls,bytesOf,Action.call?,Call.bytes]
    | flush _ =>
      refine ⟨?_,fun _ => .inl rfl⟩
      rw [bytesOf_append,ih.account]
      simp [calls,bytesOf,Action.call?,Call.bytes]
    | land =>
      rw [show calls [.internal] = [] from rfl,List.append_nil]
      refine ⟨?_,fun last => (ih.last last).imp_right fun none => ?_⟩
      · dsimp only
        rw [ih.account,List.append_assoc,List.take_append_drop]
      · dsimp only
        rw [none,List.drop_nil]
    | flushed _ none =>
      rw [show calls [.internal] = [] from rfl,List.append_nil]
      exact ⟨ih.account,fun _ => .inr none⟩

theorem run_ordered (actions : List Action) (state : Backlog) (path : Runs Step fresh actions state) :
    state.disk <+: bytesOf (calls actions) := by
  rw [(run_sound path).account]
  exact List.prefix_append _ _

theorem step_grows (before : Backlog) (action : Action) (after : Backlog) (taken : Step before action after) :
    before.disk <+: after.disk := by
  cases taken with
  | land => exact List.prefix_append _ _
  | _ => exact List.prefix_rfl

theorem run_flushed (actions : List Action) (state : Backlog) (path : Runs Step fresh actions state)
    (last : (calls actions).getLast? = some .flush) (idle : state.flushing = false) : bytesOf (calls actions) <+: state.disk := by
  have sound := run_sound path
  have none : state.pending = [] := (sound.last last).resolve_left (by simp [idle])
  rw [sound.account,none,List.append_nil]

def writer : Writer where
  State := Backlog
  fresh := fresh
  Step := Step
  Idle := fun state => state.flushing = false
  disk := disk
  ordered := run_ordered
  grows := step_grows
  flushed := run_flushed

-- Every list of calls can be made and comes to its end.
theorem calls_complete (made : List Call) (idle : state.flushing = false) :
    ∃ actions done, Runs Step state actions done ∧ calls actions = made ∧ done.flushing = false := by
  induction made generalizing state with
  | nil => exact ⟨[],state,.nil,rfl,idle⟩
  | cons call rest ih =>
    cases call with
    | write data =>
      have written : Step state (.call (.write data)) {state with pending := state.pending ++ data} := .write idle
      obtain ⟨later,done,path,others,still⟩ := @ih {state with pending := state.pending ++ data} idle
      exact ⟨_,done,(Runs.one written).append path,by rw [calls_append,others]; rfl,still⟩
    | flush =>
      have begun : Step state (.call .flush) {state with flushing := true} := .flush idle
      have landed : Step {state with flushing := true} .internal ⟨state.disk ++ state.pending,[],true⟩ := by
        have all := @Step.land {state with flushing := true} state.pending.length
        rwa [List.take_length,List.drop_length] at all
      have ended : Step ⟨state.disk ++ state.pending,[],true⟩ .internal ⟨state.disk ++ state.pending,[],false⟩ := .flushed rfl rfl
      obtain ⟨later,done,path,others,still⟩ := @ih ⟨state.disk ++ state.pending,[],false⟩ rfl
      exact ⟨_,done,(((Runs.one begun).snoc landed).snoc ended).append path,by rw [calls_append,others]; rfl,still⟩

end Backlog

end BufferedFile
