import AegisHoneypot.ShellDispatch
import AegisHoneypot.Library.Transition

namespace AegisHoneypot.SudoTransparency
open FileTree Vfs Shell Transition

-- The body of the loop that strips `sudo`; nothing is its `break`.
def sudoTurn : Text → Option Text
  | 's' :: 'u' :: 'd' :: 'o' :: rest =>
    if rest = [] then some []
    else if rest.head? = some ' ' then some (Text.trimStart rest)
    else none
  | _ => none

theorem turn_plain (cmd : Text) (other : ∀ rest, cmd ≠ 's' :: 'u' :: 'd' :: 'o' :: rest) : sudoTurn cmd = none := by
  rw [sudoTurn]
  exact fun rest same => other rest same

theorem turn_spends (cmd next : Text) (turned : sudoTurn cmd = some next) : next.length + 4 ≤ cmd.length := by
  by_cases prefixed : ∃ rest, cmd = 's' :: 'u' :: 'd' :: 'o' :: rest
  · obtain ⟨rest,rfl⟩ := prefixed
    have shorter : (Text.trimStart rest).length ≤ rest.length := (List.dropWhile_suffix _).length_le
    rw [sudoTurn] at turned
    split at turned
    · cases turned
      simp
    · split at turned
      · cases turned
        simpa using shorter
      · cases turned
  · rw [turn_plain cmd (fun rest same => prefixed ⟨rest,same⟩)] at turned
    cases turned

-- The fuelled definition takes the turns of the loop one by one.
theorem within_turn (turns : Nat) (cmd : Text) :
    stripSudoWithin (turns+1) cmd = match sudoTurn cmd with
      | some next => stripSudoWithin turns next
      | none => cmd := by
  by_cases prefixed : ∃ rest, cmd = 's' :: 'u' :: 'd' :: 'o' :: rest
  · obtain ⟨rest,rfl⟩ := prefixed
    rw [stripSudoWithin,sudoTurn]
    by_cases bare : rest = []
    · rw [if_pos bare,if_pos bare]
      cases turns <;> rfl
    · rw [if_neg bare,if_neg bare]
      by_cases blank : rest.head? = some ' '
      · rw [if_pos blank,if_pos blank]
      · rw [if_neg blank,if_neg blank]
  · have other : ∀ rest, cmd ≠ 's' :: 'u' :: 'd' :: 'o' :: rest := fun rest same => prefixed ⟨rest,same⟩
    rw [turn_plain cmd other,stripSudoWithin]
    exact fun rest same => other rest same

-- The length of the command is fuel enough for the loop to reach its `break`.
theorem within_loops (turns : Nat) (cmd : Text) (enough : cmd.length ≤ turns) :
    ∃ taken, Loops sudoTurn cmd taken (stripSudoWithin turns cmd) := by
  induction turns generalizing cmd with
  | zero =>
    rw [List.length_eq_zero_iff.mp (Nat.le_zero.mp enough)]
    exact ⟨0,.stop rfl⟩
  | succ turns ih =>
    rw [within_turn]
    cases turned : sudoTurn cmd with
    | none => exact ⟨0,.stop turned⟩
    | some next =>
      have spent := turn_spends cmd next turned
      obtain ⟨taken,later⟩ := ih next (by omega)
      exact ⟨taken+1,.again turned later⟩

theorem stripSudo_loops (cmd : Text) : ∃ turns, Loops sudoTurn cmd turns (stripSudo cmd) :=
  within_loops cmd.length cmd (Nat.le_refl _)

-- One turn does not change where the loop ends.
theorem stripSudo_turn (turned : sudoTurn cmd = some next) : stripSudo cmd = stripSudo next := by
  obtain ⟨_,whole⟩ := stripSudo_loops cmd
  obtain ⟨_,rest⟩ := stripSudo_loops next
  exact (whole.unique (.again turned rest)).2

theorem stripSudo_stop (ended : sudoTurn cmd = none) : stripSudo cmd = cmd := by
  obtain ⟨_,whole⟩ := stripSudo_loops cmd
  exact (whole.unique (.stop ended)).2

-- `"sudo ".repeat(n) + cmd`
def sudoed (n : Nat) (cmd : Text) : Text := (List.replicate n "sudo ".toList).flatten ++ cmd

theorem sudoed_succ (n : Nat) (cmd : Text) : sudoed (n+1) cmd = 's' :: 'u' :: 'd' :: 'o' :: ' ' :: sudoed n cmd := rfl

theorem sudoed_trimmed (n : Nat) (cmd : Text) (trimmed : Text.trimStart cmd = cmd) :
    Text.trimStart (sudoed n cmd) = sudoed n cmd := by
  cases n with
  | zero => exact trimmed
  | succ n => rfl

theorem sudoed_turn (n : Nat) (cmd : Text) (trimmed : Text.trimStart cmd = cmd) :
    sudoTurn (sudoed (n+1) cmd) = some (sudoed n cmd) := by
  have dropped : Text.trimStart (' ' :: sudoed n cmd) = sudoed n cmd := sudoed_trimmed n cmd trimmed
  rw [sudoed_succ,sudoTurn,if_neg (by simp),if_pos List.head?_cons,dropped]

theorem stripSudo_sudoed (n : Nat) (cmd : Text) (trimmed : Text.trimStart cmd = cmd) :
    stripSudo (sudoed n cmd) = stripSudo cmd := by
  induction n with
  | zero => rfl
  | succ n ih => rw [stripSudo_turn (sudoed_turn n cmd trimmed),ih]

-- A word that only begins with `sudo`, such as `sudoedit`.
def Merely (cmd : Text) : Prop := ∃ next rest, next ≠ ' ' ∧ cmd = "sudo".toList ++ next :: rest

theorem Merely.stripped (merely : Merely cmd) : stripSudo cmd = cmd := by
  obtain ⟨next,rest,solid,rfl⟩ := merely
  apply stripSudo_stop
  have other : ¬ (next :: rest).head? = some ' ' := fun same => solid (Option.some.inj same)
  change sudoTurn ('s' :: 'u' :: 'd' :: 'o' :: next :: rest) = none
  rw [sudoTurn,if_neg (by simp),if_neg other]

theorem Merely.trimmed (merely : Merely cmd) : Text.trimStart cmd = cmd := by
  obtain ⟨next,rest,_,rfl⟩ := merely
  rfl

theorem Merely.program (merely : Merely cmd) : ∃ next rest, programOf cmd = 's' :: 'u' :: 'd' :: 'o' :: next :: rest := by
  obtain ⟨next,rest,solid,rfl⟩ := merely
  refine ⟨next,rest.takeWhile (· ≠ ' '),?_⟩
  simp [programOf,solid]

-- No program of the shell has a name that only begins with `sudo`.
theorem unknown_vfs (next : Char) (rest args : Text) :
    vfsProgram (String.ofList ('s' :: 'u' :: 'd' :: 'o' :: next :: rest)) args = none := by
  unfold vfsProgram
  split
  case h_8 => rfl
  all_goals
    rename_i same
    have letters := congrArg String.toList same
    simp at letters

theorem unknown_fixed (date : Text) (cat : Text → Text) (cmd args : Text) (next : Char) (rest : Text) :
    fixedProgram date cat cmd ('s' :: 'u' :: 'd' :: 'o' :: next :: rest) args =
      unknownProgram cmd ('s' :: 'u' :: 'd' :: 'o' :: next :: rest) := by
  unfold fixedProgram
  split
  all_goals first
    | rename_i same
      have letters := congrArg String.toList same
      simp at letters
    | rfl

section Dispatch
variable {σ : Type} (fs : HostFs σ) (date : Text) (state : VfsState σ)

theorem dispatchPure_alike (same : stripSudo left = stripSudo right) :
    dispatchPure fs date left state = dispatchPure fs date right state := by
  unfold dispatchPure
  rw [same]

theorem Merely.dispatched (merely : Merely cmd) :
    dispatchPure fs date cmd state =
      ("bash: ".toList ++ programOf cmd ++ ": command not found\r\n".toList,state) := by
  obtain ⟨next,rest,program⟩ := merely.program
  have stripped := merely.stripped
  obtain ⟨letter,more,_,spelled⟩ := merely
  have named : cmd ≠ [] := by simp [spelled]
  have away : (cmd.startsWith "./" || cmd.startsWith "/") = false := by
    rw [spelled]
    rfl
  unfold dispatchPure
  rw [stripped,if_neg named,program]
  dsimp only
  rw [unknown_vfs]
  dsimp only
  rw [unknown_fixed,unknownProgram,away,if_neg (by simp)]

theorem sudo_transparent :
    (∀ n cmd, Text.trimStart cmd = cmd →
      dispatchPure fs date (sudoed n cmd) state = dispatchPure fs date cmd state) ∧
    (∀ n, dispatchPure fs date (sudoed n "sudo".toList) state = ([],state)) ∧
    (∀ n cmd, Merely cmd → stripSudo (sudoed n cmd) = cmd ∧ dispatchPure fs date (sudoed n cmd) state =
      ("bash: ".toList ++ programOf cmd ++ ": command not found\r\n".toList,state)) ∧
    ∀ cmd, ∃ turns, Loops sudoTurn cmd turns (stripSudo cmd) ∧ 4*turns ≤ cmd.length := by
  refine ⟨?_,?_,?_,?_⟩
  · intro n cmd trimmed
    exact dispatchPure_alike fs date state (stripSudo_sudoed n cmd trimmed)
  · intro n
    rw [dispatchPure_alike fs date state (stripSudo_sudoed n _ rfl)]
    rfl
  · intro n cmd merely
    have stripped := stripSudo_sudoed n cmd merely.trimmed
    rw [dispatchPure_alike fs date state stripped]
    exact ⟨stripped.trans merely.stripped,merely.dispatched fs date state⟩
  · intro cmd
    obtain ⟨turns,loop⟩ := stripSudo_loops cmd
    exact ⟨turns,loop,loop.bounded turn_spends⟩

end Dispatch

end AegisHoneypot.SudoTransparency
