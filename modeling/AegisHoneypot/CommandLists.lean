import AegisHoneypot.ShellDispatch
import Mathlib.Data.List.Chain

-- What a line is taken to mean: the simple commands it is cut into.
namespace AegisHoneypot.CommandLists
open FileTree Vfs Shell

inductive Simple where
  | redirected (redirect : Redirect)
  | bare (cmd : Text)
  deriving DecidableEq, Repr

def simple (cmd : Text) : Simple :=
  match parseRedirect cmd with
  | some redirect => .redirected redirect
  | none => .bare cmd

-- The pieces between the separators, as a list of commands should be cut.
def pieces (cmd : Text) : List Simple := (cmd.split ';').map (fun part => simple part.trim)

-- As `dispatch` cuts it: a redirection is looked for before the separators.
def plan (cmd : Text) : List Simple :=
  match parseRedirect cmd.trim with
  | some redirect => [.redirected redirect]
  | none => if ';' ∈ cmd.trim then pieces cmd.trim else [.bare cmd.trim]

section Meaning
variable {σ : Type} (fs : HostFs σ) (date : Text)

def perform (state : VfsState σ) : Simple → Text × VfsState σ
  | .redirected redirect => ([],dispatchRedirect fs date redirect state)
  | .bare cmd => dispatchPure fs date cmd state

def performNext (current : Text × VfsState σ) (command : Simple) : Text × VfsState σ :=
  (current.1 ++ (perform fs date current.2 command).1,(perform fs date current.2 command).2)

def performAll (commands : List Simple) (state : VfsState σ) : Text × VfsState σ :=
  commands.foldl (performNext fs date) ([],state)

theorem performed_after (commands : List Simple) (output : Text) (state : VfsState σ) :
    commands.foldl (performNext fs date) (output,state) =
      (output ++ (performAll fs date commands state).1,(performAll fs date commands state).2) := by
  unfold performAll
  induction commands generalizing output state with
  | nil => simp
  | cons command rest ih =>
    simp only [List.foldl_cons,performNext]
    rw [ih (output ++ _),ih ([] ++ _),List.nil_append,List.append_assoc]

theorem performAll_append (first second : List Simple) (state : VfsState σ) :
    performAll fs date (first ++ second) state =
      ((performAll fs date first state).1 ++ (performAll fs date second (performAll fs date first state).2).1,
        (performAll fs date second (performAll fs date first state).2).2) := by
  unfold performAll
  rw [List.foldl_append]
  exact performed_after fs date second _ _

theorem dispatchSimple_perform (cmd : Text) (state : VfsState σ) :
    dispatchSimple fs date cmd state = perform fs date state (simple cmd) := by
  unfold dispatchSimple simple
  cases parseRedirect cmd <;> rfl

theorem dispatch_plan (cmd : Text) (state : VfsState σ) : dispatch fs date cmd state = performAll fs date (plan cmd) state := by
  unfold dispatch plan
  dsimp only
  cases parseRedirect cmd.trim with
  | some redirect => rfl
  | none =>
    dsimp only
    split
    · unfold performAll pieces
      rw [List.foldl_map]
      congr 1
      funext current part
      unfold dispatchNext performNext
      dsimp only
      rw [dispatchSimple_perform]
    · rfl

end Meaning

section Redirection

theorem parseRedirect_none (cmd : Text) : parseRedirect cmd = none ↔
    splitDouble cmd = none ∧ ∀ found, splitLast cmd = some found → found.2.head? = some '=' := by
  unfold parseRedirect
  cases double : splitDouble cmd with
  | some found => simp
  | none =>
    cases last : splitLast cmd with
    | none => simp
    | some found => simp

theorem splitDouble_cons (c : Char) (rest : Text) :
    splitDouble (c :: rest) = none ↔ ¬ (c = '>' ∧ rest.head? = some '>') ∧ splitDouble rest = none := by
  rw [splitDouble.eq_def]
  split
  · rename_i later same
    obtain ⟨rfl,rfl⟩ := List.cons.inj same
    simp
  · rename_i first later other same
    obtain ⟨rfl,rfl⟩ := List.cons.inj same
    rw [Option.map_eq_none_iff]
    refine ⟨fun none => ⟨?_,none⟩,fun given => given.2⟩
    rintro ⟨rfl,next⟩
    obtain ⟨second,more,rfl⟩ : ∃ second more, rest = second :: more := by
      cases rest with
      | nil => cases next
      | cons second more => exact ⟨second,more,rfl⟩
    cases next
    exact other more rfl rfl
  · rename_i same
    cases same

def Pair (left right : Char) : Prop := ¬ (left = '>' ∧ right = '>')

theorem splitDouble_chain (cmd : Text) : splitDouble cmd = none ↔ cmd.IsChain Pair := by
  induction cmd with
  | nil => simp [splitDouble]
  | cons c rest ih =>
    rw [splitDouble_cons,List.isChain_cons,ih]
    cases rest with
    | nil => simp
    | cons next later => simp [Pair]

theorem single_chain (cmd : Text) (clear : '>' ∉ cmd) : cmd.IsChain Pair := by
  refine List.isChain_iff_forall_rel_of_append_cons_cons.mpr ?_
  rintro left right early late rfl ⟨rfl,_⟩
  exact clear (by simp)

-- Text without `>` at either end has no part in a `>>`.
theorem chain_trimmed (front middle back : Text) (frontClear : '>' ∉ front) (backClear : '>' ∉ back) :
    (front ++ middle ++ back).IsChain Pair ↔ middle.IsChain Pair := by
  rw [List.isChain_append,List.isChain_append]
  constructor
  · rintro ⟨⟨_,held,_⟩,_⟩
    exact held
  · intro held
    refine ⟨⟨single_chain front frontClear,held,?_⟩,single_chain back backClear,?_⟩
    · rintro left last right _ ⟨rfl,_⟩
      exact frontClear (List.mem_of_mem_getLast? last)
    · rintro left _ right first ⟨_,rfl⟩
      exact backClear (List.mem_of_mem_head? first)

theorem splitLast_append (front rest : Text) : splitLast (front ++ rest) =
    ((splitLast rest).map (fun found => (front ++ found.1,found.2))).or
      ((splitLast front).map (fun found => (found.1,found.2 ++ rest))) := by
  induction front with
  | nil => cases last : splitLast rest <;> simp [splitLast,last]
  | cons c later ih =>
    rw [List.cons_append,splitLast,ih,splitLast]
    cases splitLast rest with
    | some found => simp
    | none =>
      cases splitLast later with
      | some found => simp
      | none =>
        by_cases here : c = '>'
        · simp [here]
        · simp [here]

theorem splitLast_none (cmd : Text) : splitLast cmd = none ↔ '>' ∉ cmd := by
  induction cmd with
  | nil => simp [splitLast]
  | cons c rest ih =>
    rw [splitLast]
    cases last : splitLast rest with
    | some found =>
      rw [last] at ih
      simp at ih ⊢
      exact fun _ => ih
    | none =>
      rw [last] at ih
      by_cases here : c = '>'
      · simp [here]
      · simp [here,Ne.symm here,ih.mp rfl]

theorem parseRedirect_suffix (front rest : Text) (unparsed : parseRedirect (front ++ rest) = none) : parseRedirect rest = none := by
  rw [parseRedirect_none] at unparsed ⊢
  refine ⟨?_,?_⟩
  · rw [splitDouble_chain] at unparsed ⊢
    exact (List.isChain_append.mp unparsed.1).2.1
  · intro found last
    exact unparsed.2 (front ++ found.1,found.2) (by rw [splitLast_append,last]; rfl)

theorem parseRedirect_trim (cmd : Text) : parseRedirect cmd.trim = none ↔ parseRedirect cmd = none := by
  obtain ⟨front,back,parts,before,after⟩ := Text.trim_parts cmd
  have frontClear : '>' ∉ front := fun member => absurd (before _ member) (by decide)
  have backClear : '>' ∉ back := fun member => absurd (after _ member) (by decide)
  have last : splitLast cmd = (splitLast cmd.trim).map (fun found => (front ++ found.1,found.2 ++ back)) := by
    conv_lhs => rw [parts]
    rw [splitLast_append,(splitLast_none back).mpr backClear,splitLast_append,(splitLast_none front).mpr frontClear]
    cases splitLast cmd.trim <;> rfl
  have followed : ∀ rest : Text, (rest ++ back).head? = some '=' ↔ rest.head? = some '=' := by
    intro rest
    cases rest with
    | cons c later => rfl
    | nil =>
      refine ⟨fun first => ?_,fun first => by cases first⟩
      exact absurd (after _ (List.mem_of_mem_head? first)) (by decide)
  have doubles : splitDouble cmd = none ↔ splitDouble cmd.trim = none := by
    rw [splitDouble_chain,splitDouble_chain]
    conv_lhs => rw [parts]
    exact chain_trimmed front cmd.trim back frontClear backClear
  rw [parseRedirect_none,parseRedirect_none,doubles,last]
  cases splitLast cmd.trim with
  | none => simp
  | some found => simp only [Option.map_some,Option.some.injEq,forall_eq',followed]

end Redirection

theorem pieces_trim (cmd : Text) : pieces cmd.trim = pieces cmd := by
  have trimmed := congrArg (List.map simple) (Text.split_trim ';' (by decide) cmd)
  rw [List.map_map,List.map_map] at trimmed
  exact trimmed

theorem pieces_list (first second : Text) : pieces (first ++ ';' :: second) = pieces first ++ pieces second := by
  unfold pieces Text.split
  rw [List.splitOn_append_cons_self,List.map_append]

theorem pieces_single (cmd : Text) (single : ';' ∉ cmd) : pieces cmd = [simple cmd.trim] := by
  unfold pieces Text.split
  rw [List.splitOn_eq_singleton single]
  rfl

theorem pieces_long (cmd : Text) : 1 ≤ (pieces cmd).length ∧ (';' ∈ cmd → 2 ≤ (pieces cmd).length) := by
  have one : ∀ text : Text, 1 ≤ (pieces text).length := by
    intro text
    rw [pieces,List.length_map]
    exact List.length_pos_iff.mpr (List.splitOn_ne_nil _ _)
  refine ⟨one cmd,?_⟩
  intro held
  obtain ⟨front,rest,rfl⟩ := List.append_of_mem held
  have left := one front
  have right := one rest
  rw [pieces_list,List.length_append]
  omega

theorem plan_redirected (found : parseRedirect cmd.trim = some redirect) : plan cmd = [.redirected redirect] := by
  rw [plan,found]

theorem plan_unparsed (unparsed : parseRedirect cmd = none) : plan cmd = pieces cmd := by
  have trimmed := (parseRedirect_trim cmd).mpr unparsed
  rw [plan,trimmed]
  dsimp only
  split
  · exact pieces_trim cmd
  · rename_i single
    rw [← pieces_trim,pieces_single _ single,Text.trim_trim,simple,trimmed]

theorem parsed_trim (parsed : parseRedirect cmd ≠ none) : ∃ redirect, parseRedirect cmd.trim = some redirect :=
  Option.ne_none_iff_exists'.mp (fun trimmed => parsed ((parseRedirect_trim cmd).mp trimmed))

theorem plan_pieces (cmd : Text) : plan cmd = pieces cmd ↔ parseRedirect cmd = none ∨ ';' ∉ cmd := by
  by_cases unparsed : parseRedirect cmd = none
  · exact iff_of_true (plan_unparsed unparsed) (Or.inl unparsed)
  · obtain ⟨redirect,found⟩ := parsed_trim unparsed
    rw [plan_redirected found]
    constructor
    · intro same
      right
      intro held
      have long := (pieces_long cmd).2 held
      rw [← same] at long
      exact absurd long (by simp)
    · rintro (none | single)
      · exact absurd none unparsed
      · rw [pieces_single cmd single,simple,found]

def Separable (first second : Text) : Prop :=
  parseRedirect (first ++ ';' :: second) = none ∧ (parseRedirect first = none ∨ ';' ∉ first)

theorem plan_list (first second : Text) : plan (first ++ ';' :: second) = plan first ++ plan second ↔ Separable first second := by
  unfold Separable
  rw [← plan_pieces]
  by_cases unparsed : parseRedirect (first ++ ';' :: second) = none
  · have later : parseRedirect second = none := by
      refine parseRedirect_suffix (first ++ [';']) second ?_
      simpa using unparsed
    rw [plan_unparsed unparsed,pieces_list,plan_unparsed later,List.append_cancel_right_eq,eq_comm]
    simp [unparsed]
  · obtain ⟨redirect,found⟩ := parsed_trim unparsed
    refine iff_of_false ?_ (fun given => unparsed given.1)
    intro same
    have some_ : ∀ cmd : Text, 1 ≤ (plan cmd).length := by
      intro cmd
      by_cases quiet : parseRedirect cmd = none
      · rw [plan_unparsed quiet]
        exact (pieces_long cmd).1
      · obtain ⟨other,parsed⟩ := parsed_trim quiet
        rw [plan_redirected parsed]
        exact Nat.le_refl 1
    have lengths := congrArg List.length same
    rw [plan_redirected found,List.length_append,List.length_singleton] at lengths
    have left := some_ first
    have right := some_ second
    omega

theorem redirected_silent (parsed : parseRedirect cmd ≠ none) (fs : HostFs σ) (date : Text) (state : VfsState σ) :
    (dispatch fs date cmd state).1 = [] := by
  obtain ⟨redirect,found⟩ := parsed_trim parsed
  rw [dispatch_plan,plan_redirected found]
  rfl

-- The cut decides: where it falls on the separator the list is its two parts, and
-- a list taken for one redirection can only stand for parts that print nothing.
theorem list_sequenced (first second : Text) :
    (plan (first ++ ';' :: second) = plan first ++ plan second ↔ Separable first second) ∧
    (Separable first second → ∀ (σ : Type) (fs : HostFs σ) (date : Text) (state : VfsState σ),
      dispatch fs date (first ++ ';' :: second) state =
        ((dispatch fs date first state).1 ++ (dispatch fs date second (dispatch fs date first state).2).1,
          (dispatch fs date second (dispatch fs date first state).2).2)) ∧
    (parseRedirect (first ++ ';' :: second) ≠ none → ∀ (σ : Type) (fs : HostFs σ) (date : Text) (state : VfsState σ),
      dispatch fs date (first ++ ';' :: second) state =
        ((dispatch fs date first state).1 ++ (dispatch fs date second (dispatch fs date first state).2).1,
          (dispatch fs date second (dispatch fs date first state).2).2) →
      (dispatch fs date first state).1 = [] ∧ (dispatch fs date second (dispatch fs date first state).2).1 = []) := by
  refine ⟨plan_list first second,?_,?_⟩
  · intro separable σ fs date state
    simp only [dispatch_plan]
    rw [(plan_list first second).mpr separable,performAll_append]
  · intro parsed σ fs date state same
    have silent := redirected_silent parsed fs date state
    rw [same] at silent
    exact List.append_eq_nil_iff.mp silent

def bareState : VfsState Disk := ⟨VirtualFileSystem.withRoots none none,∅⟩

theorem change_then_print :
    Separable "cd /tmp".toList " pwd".toList ∧
    dispatch plain [] "cd /tmp; pwd".toList bareState =
      ((dispatch plain [] "cd /tmp".toList bareState).1 ++
        (dispatch plain [] " pwd".toList (dispatch plain [] "cd /tmp".toList bareState).2).1,
        (dispatch plain [] " pwd".toList (dispatch plain [] "cd /tmp".toList bareState).2).2) := by
  have separable : Separable "cd /tmp".toList " pwd".toList := ⟨by decide,Or.inl (by decide)⟩
  exact ⟨separable,(list_sequenced "cd /tmp".toList " pwd".toList).2.1 separable Disk plain [] bareState⟩

theorem redirected_list_swallowed :
    (dispatch plain [] "echo a; echo b > f".toList bareState).1 = [] ∧
    (dispatch plain [] "echo a".toList bareState).1 ++
      (dispatch plain [] " echo b > f".toList (dispatch plain [] "echo a".toList bareState).2).1 = "a\r\n".toList ∧
    ¬ Separable "echo a".toList " echo b > f".toList ∧
    dispatch plain [] "echo a; echo b > f".toList bareState ≠
      ((dispatch plain [] "echo a".toList bareState).1 ++
        (dispatch plain [] " echo b > f".toList (dispatch plain [] "echo a".toList bareState).2).1,
        (dispatch plain [] " echo b > f".toList (dispatch plain [] "echo a".toList bareState).2).2) := by
  have whole : (dispatch plain [] "echo a; echo b > f".toList bareState).1 = [] := by decide
  have parts : (dispatch plain [] "echo a".toList bareState).1 ++
      (dispatch plain [] " echo b > f".toList (dispatch plain [] "echo a".toList bareState).2).1 = "a\r\n".toList := by decide
  refine ⟨whole,parts,?_,?_⟩
  · rintro ⟨unparsed,_⟩
    exact absurd unparsed (by decide)
  · intro same
    have output := congrArg Prod.fst same
    rw [whole,parts] at output
    cases output

end AegisHoneypot.CommandLists
