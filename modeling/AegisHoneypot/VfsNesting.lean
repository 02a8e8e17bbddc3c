import AegisHoneypot.SessionInput
import AegisHoneypot.VfsDepth

-- Every command can only go as deep as its line is long, but it starts from
-- where earlier ones have led.
namespace AegisHoneypot.VfsNesting
open FileTree Utf8Text VfsNode Vfs VfsDepth Shell SessionInput

-- One operand of `mkdir`, with the state it finds.
structure Attempt (σ : Type) where
  parents : Bool
  state : VfsState σ
  target : Text

section Steps
variable {σ : Type} (fs : HostFs σ)

namespace Attempt

def parts (attempt : Attempt σ) : Path := attempt.state.vfs.resolve attempt.target

-- With `-p` a file on the way stops it; without, the parent must be in the tree
-- and the name new there and on the writable layer.
def Creates (attempt : Attempt σ) : Prop :=
  if attempt.parents then ¬ Blocked attempt.state.vfs.root attempt.parts
  else (∃ children, attempt.state.parentDir attempt.parts = some children ∧
      children.get (VfsState.baseName attempt.parts) = none) ∧
    ∀ upper, attempt.state.vfs.resolveUpperPath attempt.parts = some upper → (fs.view attempt.state.host).entry upper = none

def Exceeds (limit : Nat) (attempt : Attempt σ) : Prop := limit < attempt.parts.length ∧ attempt.Creates fs

def after (attempt : Attempt σ) : VfsState σ := (VfsState.mkdirTarget fs attempt.parents ([],attempt.state) attempt.target).2

end Attempt

-- What `mkdir` does to the tree once the disk has let it through.
def madeRoot (parents : Bool) (root : Children) (parts : Path) : Children :=
  if parents then root.makeDirs parts else
  match root.getDir parts.dropLast with
  | some children =>
    if (children.get (VfsState.baseName parts)).isSome then root
    else root.putDir parts.dropLast (children.insert (VfsState.baseName parts) newDir)
  | none => root

theorem mkdirMemory_root (parents : Bool) (target : Text) (parts : Path) (output : Text) (state : VfsState σ) :
    (VfsState.mkdirMemory parents target parts output state).2.vfs.root = madeRoot parents state.vfs.root parts := by
  unfold VfsState.mkdirMemory madeRoot VfsState.parentDir
  cases parents with
  | true => rfl
  | false =>
    cases state.vfs.root.getDir (List.dropLast parts) with
    | none => rfl
    | some children =>
      dsimp only
      by_cases taken : (children.get (VfsState.baseName parts)).isSome = true
      · simp only [taken,if_true]
        rfl
      · simp only [taken]
        rfl

-- The text printed so far has no influence on the state.
theorem mkdirMemory_output (parents : Bool) (target : Text) (parts : Path) (output other : Text) (state : VfsState σ) :
    (VfsState.mkdirMemory parents target parts output state).2 = (VfsState.mkdirMemory parents target parts other state).2 := by
  unfold VfsState.mkdirMemory
  split
  · rfl
  · split
    · split
      · rfl
      · rfl
    · rfl

theorem mkdirTarget_after (attempt : Attempt σ) (output : Text) :
    (VfsState.mkdirTarget fs attempt.parents (output,attempt.state) attempt.target).2 = attempt.after fs := by
  unfold Attempt.after VfsState.mkdirTarget
  dsimp only
  split
  · rfl
  · split
    · exact mkdirMemory_output ..
    · split
      · exact mkdirMemory_output ..
      · split
        · rfl
        · split
          · exact mkdirMemory_output ..
          · exact mkdirMemory_output ..

-- The root directory is never made, and a path on the disk ends a plain `mkdir`.
def Attempt.Stops (attempt : Attempt σ) : Prop :=
  attempt.parts = [] ∨ (attempt.parents = false ∧ ∃ upper, attempt.state.vfs.resolveUpperPath attempt.parts = some upper ∧
    ((fs.view attempt.state.host).entry upper).isSome)

theorem after_stopped (attempt : Attempt σ) (stops : attempt.Stops fs) :
    (attempt.after fs).vfs.root = attempt.state.vfs.root := by
  unfold Attempt.after VfsState.mkdirTarget
  change (if attempt.parts = [] then _ else _ : Text × VfsState σ).2.vfs.root = _
  rcases stops with top | ⟨plain,upper,found,present⟩
  · rw [if_pos top]
  · split
    · rfl
    · unfold Attempt.parts at found
      rw [found]
      dsimp only
      rw [plain,if_neg Bool.false_ne_true,if_pos present]

theorem after_made (attempt : Attempt σ) (works : ¬ attempt.Stops fs) :
    (attempt.after fs).vfs.root = madeRoot attempt.parents attempt.state.vfs.root attempt.parts := by
  unfold Attempt.after VfsState.mkdirTarget
  change (if attempt.parts = [] then _ else _ : Text × VfsState σ).2.vfs.root = _
  rw [if_neg (fun top => works (Or.inl top))]
  split
  · exact mkdirMemory_root ..
  · rename_i upper found
    split
    · exact mkdirMemory_root ..
    · rename_i plain
      split
      · rename_i present
        exact absurd (Or.inr ⟨by simpa using plain,upper,found,present⟩) works
      · split
        · exact mkdirMemory_root ..
        · refine (mkdirMemory_root ..).trans ?_
          change madeRoot _ (attempt.state.createParents fs upper).vfs.root _ = _
          rw [createParents_vfs]
          rfl

theorem madeRoot_plain (root : Children) (parts : Path) (named : parts ≠ []) (found : root.getDir parts.dropLast = some children)
    (free : children.get (VfsState.baseName parts) = none) :
    parts.length ≤ depth (madeRoot false root parts) ∧ depth (madeRoot false root parts) ≤ max (depth root) parts.length := by
  have made : madeRoot false root parts =
      root.putDir parts.dropLast (children.insert (VfsState.baseName parts) newDir) := by
    simp only [madeRoot,found,free]
    rfl
  have whole : parts.dropLast ++ [VfsState.baseName parts] = parts := by
    rw [VfsState.baseName,List.getLast?_eq_some_getLast named,Option.getD_some,List.dropLast_append_getLast]
  have long : parts.dropLast.length + 1 = parts.length := by
    rw [← congrArg List.length whole,List.length_append,List.length_singleton]
  have reached := putDir_getDir root parts.dropLast (children.insert (VfsState.baseName parts) newDir) found
    [VfsState.baseName parts]
  rw [whole] at reached
  simp only [Children.getDir,insert_get,newDir] at reached
  have outer := putDir_depth root parts.dropLast (children.insert (VfsState.baseName parts) newDir)
  have inner := insert_depth children (VfsState.baseName parts) newDir
  have held := getDir_depth root parts.dropLast found
  simp only [newDir,nodeDepth,depth] at inner
  rw [made]
  refine ⟨Nat.le_trans (Nat.le_add_right _ _) (getDir_depth _ _ reached),?_⟩
  simp only [newDir] at outer ⊢
  omega

theorem after_depth (limit : Nat) (attempt : Attempt σ) (bounded : depth attempt.state.vfs.root ≤ limit) :
    depth (attempt.after fs).vfs.root ≤ limit ↔ ¬ attempt.Exceeds fs limit := by
  have unchanged : depth attempt.state.vfs.root ≤ limit ↔ True := iff_true_intro bounded
  by_cases stops : attempt.Stops fs
  · rw [after_stopped fs attempt stops,unchanged,true_iff]
    intro exceeds
    rcases stops with top | ⟨plain,upper,found,present⟩
    · rw [Attempt.Exceeds,top] at exceeds
      exact absurd exceeds.1 (by simp)
    · have creates := exceeds.2
      simp only [Attempt.Creates,plain] at creates
      rw [creates.2 upper found] at present
      cases present
  · rw [after_made fs attempt stops]
    cases parents : attempt.parents with
    | true =>
      change depth (attempt.state.vfs.root.makeDirs attempt.parts) ≤ limit ↔ _
      by_cases blocked : Blocked attempt.state.vfs.root attempt.parts
      · have same := makeDirs_blocked _ _ blocked
        rw [iff_true_intro (Nat.le_trans same bounded),true_iff]
        intro exceeds
        have creates := exceeds.2
        simp only [Attempt.Creates,parents,if_true] at creates
        exact creates blocked
      · obtain ⟨children,reached⟩ := makeDirs_reaches _ _ blocked
        have deep := getDir_depth _ _ reached
        have shallow := makeDirs_depth attempt.state.vfs.root attempt.parts
        simp only [Attempt.Exceeds,Attempt.Creates,parents,if_true,blocked,not_false_iff,and_true,Nat.not_lt]
        omega
    | false =>
      have named : attempt.parts ≠ [] := fun top => stops (Or.inl top)
      cases found : attempt.state.vfs.root.getDir attempt.parts.dropLast with
      | none =>
        simp only [madeRoot,found,Bool.false_eq_true,if_false,unchanged,true_iff]
        intro exceeds
        have creates := exceeds.2
        simp only [Attempt.Creates,parents,VfsState.parentDir,found] at creates
        obtain ⟨⟨children,none,_⟩,_⟩ := creates
        cases none
      | some children =>
        cases taken : children.get (VfsState.baseName attempt.parts) with
        | some node =>
          simp only [madeRoot,found,taken,Option.isSome_some,Bool.false_eq_true,if_false,if_true,unchanged,true_iff]
          intro exceeds
          have creates := exceeds.2
          simp only [Attempt.Creates,parents,VfsState.parentDir,found] at creates
          obtain ⟨⟨_,same,free⟩,_⟩ := creates
          cases same
          rw [taken] at free
          cases free
        | none =>
          obtain ⟨deep,shallow⟩ := madeRoot_plain attempt.state.vfs.root attempt.parts named found taken
          have creates : attempt.Creates fs := by
            simp only [Attempt.Creates,parents,Bool.false_eq_true,if_false]
            refine ⟨⟨children,found,taken⟩,?_⟩
            intro upper place
            cases held : (fs.view attempt.state.host).entry upper with
            | none => rfl
            | some entry => exact absurd (Or.inr ⟨parents,upper,place,by rw [held]; rfl⟩) stops
          simp only [Attempt.Exceeds,creates,and_true,Nat.not_lt]
          omega

end Steps

section Session
variable {σ : Type} (fs : HostFs σ)

def mkdirAttempts (parents : Bool) : List Text → Text × VfsState σ → List (Attempt σ)
  | [],_ => []
  | target :: rest,current =>
    ⟨parents,current.2,target⟩ :: mkdirAttempts parents rest (VfsState.mkdirTarget fs parents current target)

def runAttempts (state : VfsState σ) : VfsCommand → List (Attempt σ)
  | .mkdir args => mkdirAttempts fs (args.splitWhitespace.any (· == "-p".toList)) (VirtualFileSystem.operands args) ([],state)
  | _ => []

def pureAttempts (cmd : Text) (state : VfsState σ) : List (Attempt σ) :=
  match vfsProgram (String.ofList (programOf (stripSudo cmd))) (argsOf (stripSudo cmd)) with
  | some command => if stripSudo cmd = [] then [] else runAttempts fs state command
  | none => []

def simpleAttempts (cmd : Text) (state : VfsState σ) : List (Attempt σ) :=
  match parseRedirect cmd with
  | some redirect => pureAttempts fs redirect.command.trim state
  | none => pureAttempts fs cmd state

variable (date : Text)

def partsAttempts : List Text → VfsState σ → List (Attempt σ)
  | [],_ => []
  | part :: rest,state =>
    simpleAttempts fs part.trim state ++ partsAttempts rest (dispatchSimple fs date part.trim state).2

def lineAttempts (line : Text) (state : VfsState σ) : List (Attempt σ) :=
  match parseRedirect line.trim with
  | some redirect => pureAttempts fs redirect.command.trim state
  | none => if ';' ∈ line.trim then partsAttempts fs date (line.trim.split ';') state else pureAttempts fs line.trim state

-- A session types lines, each at some time of the clock.
def typeLines : List (Text × Text) → VfsState σ → VfsState σ
  | [],state => state
  | (date,line) :: rest,state => typeLines rest (dispatch fs date line state).2

def attempts : List (Text × Text) → VfsState σ → List (Attempt σ)
  | [],_ => []
  | (date,line) :: rest,state => lineAttempts fs date line state ++ attempts rest (dispatch fs date line state).2

-- The states a session passes: before every line, after every directory it
-- makes and at the end.
def passed : List (Text × Text) → VfsState σ → List (VfsState σ)
  | [],state => [state]
  | (date,line) :: rest,state =>
    state :: (lineAttempts fs date line state).map (Attempt.after fs) ++ passed rest (dispatch fs date line state).2

-- As long as the tree is within the limit, the attempts decide whether it stays.
structure Tracks (limit : Nat) (made : List (Attempt σ)) (before after : VfsState σ) : Prop where
  exact : depth before.vfs.root ≤ limit →
    ((∀ attempt ∈ made, depth (attempt.after fs).vfs.root ≤ limit) ↔ ∀ attempt ∈ made, ¬ attempt.Exceeds fs limit)
  bounded : depth before.vfs.root ≤ limit → (∀ attempt ∈ made, ¬ attempt.Exceeds fs limit) → depth after.vfs.root ≤ limit

variable {limit : Nat} {fs}

theorem Tracks.quiet (shallow : depth after.vfs.root ≤ depth before.vfs.root) : Tracks fs limit [] before after :=
  ⟨fun _ => by simp,fun bounded _ => Nat.le_trans shallow bounded⟩

theorem Tracks.one (attempt : Attempt σ) : Tracks fs limit [attempt] attempt.state (attempt.after fs) := by
  refine ⟨fun bounded => ?_,fun bounded within => ?_⟩
  · simpa using after_depth fs limit attempt bounded
  · exact (after_depth fs limit attempt bounded).mpr (within attempt List.mem_cons_self)

theorem Tracks.append (first : Tracks fs limit early before middle) (second : Tracks fs limit late middle after) :
    Tracks fs limit (early ++ late) before after := by
  constructor
  · intro bounded
    simp only [List.forall_mem_append]
    constructor
    · intro given
      have within := (first.exact bounded).mp given.1
      exact ⟨within,(second.exact (first.bounded bounded within)).mp given.2⟩
    · intro given
      exact ⟨(first.exact bounded).mpr given.1,(second.exact (first.bounded bounded given.1)).mpr given.2⟩
  · intro bounded given
    rw [List.forall_mem_append] at given
    exact second.bounded (first.bounded bounded given.1) given.2

theorem mkdir_tracks (parents : Bool) (targets : List Text) (current : Text × VfsState σ) :
    Tracks fs limit (mkdirAttempts fs parents targets current) current.2
      (targets.foldl (VfsState.mkdirTarget fs parents) current).2 := by
  induction targets generalizing current with
  | nil => exact Tracks.quiet (Nat.le_refl _)
  | cons target rest ih =>
    have made : Tracks fs limit [⟨parents,current.2,target⟩] current.2 (VfsState.mkdirTarget fs parents current target).2 := by
      rw [mkdirTarget_after fs ⟨parents,current.2,target⟩ current.1]
      exact Tracks.one _
    exact made.append (ih _)

theorem run_tracks (state : VfsState σ) (command : VfsCommand) :
    Tracks fs limit (runAttempts fs state command) state (state.run fs command).2 := by
  cases command with
  | mkdir args =>
    simp only [VfsState.run,VfsState.mkdir,runAttempts]
    split
    · rename_i none
      rw [none]
      exact Tracks.quiet (Nat.le_refl _)
    · exact mkdir_tracks _ _ ([],state)
  | _ => exact Tracks.quiet (run_depth fs state _ (fun args same => by cases same))

theorem pure_tracks (cmd : Text) (state : VfsState σ) :
    Tracks fs limit (pureAttempts fs cmd state) state (dispatchPure fs date cmd state).2 := by
  unfold dispatchPure pureAttempts
  dsimp only
  by_cases blank : stripSudo cmd = []
  · simp only [blank,if_true]
    split
    · exact Tracks.quiet (Nat.le_refl _)
    · exact Tracks.quiet (Nat.le_refl _)
  · simp only [blank,if_false]
    cases vfsProgram (String.ofList (programOf (stripSudo cmd))) (argsOf (stripSudo cmd)) with
    | some command => exact run_tracks state command
    | none => exact Tracks.quiet (Nat.le_refl _)

theorem redirect_tracks (redirect : Redirect) (state : VfsState σ) :
    Tracks fs limit (pureAttempts fs redirect.command.trim state) state (dispatchRedirect fs date redirect state) := by
  have answered : Tracks fs limit _ state (dispatchPure fs date redirect.command.trim state).2 :=
    pure_tracks date redirect.command.trim state
  have written : Tracks fs limit [] (dispatchPure fs date redirect.command.trim state).2
      (dispatchRedirect fs date redirect state) := run_tracks _ (.writeFile _ _ _)
  have both := answered.append written
  rwa [List.append_nil] at both

theorem simple_tracks (cmd : Text) (state : VfsState σ) :
    Tracks fs limit (simpleAttempts fs cmd state) state (dispatchSimple fs date cmd state).2 := by
  unfold dispatchSimple simpleAttempts
  cases parseRedirect cmd with
  | some redirect => exact redirect_tracks date redirect state
  | none => exact pure_tracks date cmd state

theorem parts_tracks (parts : List Text) (current : Text × VfsState σ) :
    Tracks fs limit (partsAttempts fs date parts current.2) current.2 (parts.foldl (dispatchNext fs date) current).2 := by
  induction parts generalizing current with
  | nil => exact Tracks.quiet (Nat.le_refl _)
  | cons part rest ih => exact (simple_tracks date part.trim current.2).append (ih (dispatchNext fs date current part))

theorem line_tracks (line : Text) (state : VfsState σ) :
    Tracks fs limit (lineAttempts fs date line state) state (dispatch fs date line state).2 := by
  unfold dispatch lineAttempts
  dsimp only
  cases parseRedirect line.trim with
  | some redirect => exact redirect_tracks date redirect state
  | none =>
    dsimp only
    by_cases several : ';' ∈ line.trim
    · rw [if_pos several,if_pos several]
      exact parts_tracks date _ ([],state)
    · rw [if_neg several,if_neg several]
      exact pure_tracks date _ state

theorem lines_tracked (lines : List (Text × Text)) (state : VfsState σ) (bounded : depth state.vfs.root ≤ limit) :
    (∀ seen ∈ passed fs lines state, depth seen.vfs.root ≤ limit) ↔
      ∀ attempt ∈ attempts fs lines state, ¬ attempt.Exceeds fs limit := by
  induction lines generalizing state with
  | nil => simpa [passed,attempts] using bounded
  | cons typed rest ih =>
    obtain ⟨date,line⟩ := typed
    have tracks : Tracks fs limit (lineAttempts fs date line state) state (dispatch fs date line state).2 :=
      line_tracks date line state
    simp only [passed,attempts,List.cons_append,List.forall_mem_cons,List.forall_mem_append,List.forall_mem_map,bounded,true_and]
    rw [tracks.exact bounded]
    constructor
    · intro given
      exact ⟨given.1,(ih _ (tracks.bounded bounded given.1)).mp given.2⟩
    · intro given
      exact ⟨given.1,(ih _ (tracks.bounded bounded given.1)).mpr given.2⟩

end Session

theorem default_depth : depth buildDefaultFs ≤ maxCommandLen := by decide

theorem nesting_exact {σ : Type} (fs : HostFs σ) (mountRoot lowerRoot : Option Path) (host : σ) (lines : List (Text × Text)) :
    (∀ seen ∈ passed fs lines ⟨VirtualFileSystem.withRoots mountRoot lowerRoot,host⟩, depth seen.vfs.root ≤ maxCommandLen) ↔
      ∀ attempt ∈ attempts fs lines ⟨VirtualFileSystem.withRoots mountRoot lowerRoot,host⟩,
        ¬ attempt.Exceeds fs maxCommandLen :=
  lines_tracked lines _ default_depth

-- `mkdir a` and `cd a`, again and again, in a session whose sandbox could not
-- be set up, on a host without a golden image.
def burrow : Nat → List (Text × Text)
  | 0 => []
  | count+1 => ([],"mkdir a".toList) :: ([],"cd a".toList) :: burrow count

structure Burrowed (length : Nat) (state : VfsState Disk) : Prop where
  long : state.vfs.currentPath.length = length
  mountRoot : state.vfs.mountRoot = none
  lowerRoot : state.vfs.lowerRoot = some ["rootfs".toList]
  host : state.host = ∅
  open_ : ∃ children, state.vfs.root.getDir state.vfs.currentPath = some children ∧ children.get ['a'] = none

-- A directory that is only in the tree.
theorem cd_memory (vfs : VirtualFileSystem) (view : View) (arg : Text) (named : arg.trim ≠ [])
    (upper : VirtualFileSystem.layerEntry view (vfs.resolveUpperPath (vfs.resolve arg.trim)) = none)
    (lower : VirtualFileSystem.layerEntry view (vfs.resolveLowerPath (vfs.resolve arg.trim)) = none)
    (found : vfs.root.getDir (vfs.resolve arg.trim) = some children) :
    (vfs.cd view arg).2 = {vfs with currentPath := vfs.resolve arg.trim} := by
  obtain ⟨perms,node⟩ := getNodeSafe_dir vfs.root _ found
  unfold VirtualFileSystem.cd
  simp only [named,if_false,upper,lower,node]
  split <;> rfl

theorem lower_missing (vfs : VirtualFileSystem) (lowerRoot : vfs.lowerRoot = some ["rootfs".toList]) (parts : Path) :
    VirtualFileSystem.layerEntry (plain.view ∅) (vfs.resolveLowerPath parts) = none := by
  rw [VirtualFileSystem.resolveLowerPath,lowerRoot]
  change entry ∅ (VirtualFileSystem.resolveDiskPathBase ["rootfs".toList] parts) = none
  rw [entry,if_neg (by simp [VirtualFileSystem.resolveDiskPathBase])]
  rfl

theorem burrow_deeper (burrowed : Burrowed length state) :
    Burrowed (length+1) (dispatch plain [] "cd a".toList (dispatch plain [] "mkdir a".toList state).2).2 := by
  obtain ⟨children,found,free⟩ := burrowed.open_
  have resolved : state.vfs.resolve ['a'] = state.vfs.currentPath ++ [['a']] := rfl
  have last : VfsState.baseName (state.vfs.currentPath ++ [['a']]) = ['a'] := by
    rw [VfsState.baseName,List.getLast?_concat]
    rfl
  have made : (dispatch plain [] "mkdir a".toList state).2 =
      state.setParent (state.vfs.currentPath ++ [['a']]) (children.insert ['a'] newDir) := by
    change (VfsState.mkdirTarget plain false ([],state) ['a']).2 = _
    simp only [VfsState.mkdirTarget,resolved,VirtualFileSystem.resolveUpperPath,burrowed.mountRoot,Option.map_none,
      VfsState.mkdirMemory,VfsState.parentDir,List.dropLast_concat,found,last,free]
    simp
  have reached := putDir_getDir state.vfs.root state.vfs.currentPath (children.insert ['a'] newDir) found [['a']]
  simp only [Children.getDir,insert_get,newDir] at reached
  rw [made]
  generalize deeper : state.setParent (state.vfs.currentPath ++ [['a']]) (children.insert ['a'] newDir) = next
  have root : next.vfs.root.getDir (state.vfs.currentPath ++ [['a']]) = some [] := by
    rw [← deeper]
    simpa only [VfsState.setParent,VfsState.inMemory,List.dropLast_concat,newDir] using reached
  have place : next.vfs.currentPath = state.vfs.currentPath := by rw [← deeper]; rfl
  have mountRoot : next.vfs.mountRoot = none := by rw [← deeper]; exact burrowed.mountRoot
  have lowerRoot : next.vfs.lowerRoot = some ["rootfs".toList] := by rw [← deeper]; exact burrowed.lowerRoot
  have host : next.host = ∅ := by rw [← deeper]; exact burrowed.host
  have entered : (dispatch plain [] "cd a".toList next).2 =
      {next with vfs := {next.vfs with currentPath := state.vfs.currentPath ++ [['a']]}} := by
    have found : next.vfs.root.getDir (next.vfs.resolve (Text.trim ['a'])) = some [] := by
      change next.vfs.root.getDir (next.vfs.currentPath ++ [['a']]) = _
      rwa [place]
    have upper : VirtualFileSystem.layerEntry (plain.view next.host) (next.vfs.resolveUpperPath (next.vfs.resolve (Text.trim ['a']))) =
        none := by
      rw [VirtualFileSystem.resolveUpperPath,mountRoot]
      rfl
    have lower : VirtualFileSystem.layerEntry (plain.view next.host) (next.vfs.resolveLowerPath (next.vfs.resolve (Text.trim ['a']))) =
        none := by
      rw [host]
      exact lower_missing next.vfs lowerRoot _
    have moved := cd_memory next.vfs (plain.view next.host) ['a'] (by decide) upper lower found
    change {next with vfs := (next.vfs.cd (plain.view next.host) ['a']).2} = _
    rw [moved,← place]
    rfl
  rw [entered]
  refine ⟨?_,mountRoot,lowerRoot,host,[],root,rfl⟩
  rw [List.length_append,List.length_singleton,burrowed.long]

theorem burrow_long (count length : Nat) (burrowed : Burrowed length state) :
    Burrowed (length+count) (typeLines plain (burrow count) state) := by
  induction count generalizing length state with
  | zero => exact burrowed
  | succ count ih =>
    have later := ih (length+1) (burrow_deeper burrowed)
    rwa [Nat.add_right_comm] at later

theorem burrow_short (count : Nat) : ∀ typed ∈ burrow count, (encode typed.2).length ≤ maxCommandLen := by
  induction count with
  | zero =>
    intro typed member
    cases member
  | succ count ih =>
    rw [burrow,List.forall_mem_cons,List.forall_mem_cons]
    exact ⟨by decide,by decide,ih⟩

theorem last_passed (fs : HostFs σ) (lines : List (Text × Text)) (state : VfsState σ) :
    typeLines fs lines state ∈ passed fs lines state := by
  induction lines generalizing state with
  | nil => exact List.mem_cons_self
  | cons typed rest ih =>
    obtain ⟨date,line⟩ := typed
    exact List.mem_cons_of_mem _ (List.mem_append_right _ (ih _))

theorem short_lines_nest_deep : (∀ typed ∈ burrow 8192, (encode typed.2).length ≤ maxCommandLen) ∧
    ¬ ∀ seen ∈ passed plain (burrow 8192) ⟨VirtualFileSystem.withRoots none (some ["rootfs".toList]),∅⟩,
      depth seen.vfs.root ≤ maxCommandLen := by
  refine ⟨burrow_short 8192,fun bounded => ?_⟩
  have start : Burrowed 1 ⟨VirtualFileSystem.withRoots none (some ["rootfs".toList]),∅⟩ :=
    ⟨rfl,rfl,rfl,rfl,_,rfl,rfl⟩
  have burrowed := burrow_long 8192 1 start
  obtain ⟨children,found,_⟩ := burrowed.open_
  have deep := getDir_depth _ _ found
  have shallow := bounded _ (last_passed plain (burrow 8192) _)
  rw [burrowed.long] at deep
  unfold maxCommandLen at shallow
  omega

end AegisHoneypot.VfsNesting
