import AegisHoneypot.LayeredRemoval
import AegisHoneypot.LayeredCreation

-- A command on several operands against the same command on each of them.
namespace AegisHoneypot.OperandLists
open FileTree Utf8Text VfsNode Vfs VfsNesting LayeredCreation LayeredRemoval

inductive Program where
  | cat
  | ls
  | touch
  | mkdir
  | rm
  deriving DecidableEq, Repr

def Program.on : Program → Text → VfsCommand
  | .cat => .cat
  | .ls => .ls
  | .touch => .touch
  | .mkdir => .mkdir
  | .rm => .rm

def flagsOf (args : Text) : List Text := args.splitWhitespace.filter VirtualFileSystem.isFlag

-- The same flags with one operand behind them.
def only (args target : Text) : Text := Text.join " " (flagsOf args ++ [target])

section Words

theorem flagsOf_word (member : flag ∈ flagsOf args) : Text.IsWord flag ∧ VirtualFileSystem.isFlag flag = true := by
  obtain ⟨inside,flag⟩ := List.mem_filter.mp member
  exact ⟨Text.splitWhitespace_word inside,flag⟩

theorem operand_word (member : target ∈ VirtualFileSystem.operands args) :
    Text.IsWord target ∧ VirtualFileSystem.isFlag target = false := by
  obtain ⟨inside,plain⟩ := List.mem_filter.mp member
  exact ⟨Text.splitWhitespace_word inside,by simpa using plain⟩

theorem only_words (member : target ∈ VirtualFileSystem.operands args) :
    (only args target).splitWhitespace = flagsOf args ++ [target] := by
  refine Text.splitWhitespace_join _ ?_
  intro word inside
  rcases List.mem_append.mp inside with flag | last
  · exact (flagsOf_word flag).1
  · rw [List.mem_singleton.mp last]
    exact (operand_word member).1

theorem only_flags (member : target ∈ VirtualFileSystem.operands args) : flagsOf (only args target) = flagsOf args := by
  have plain := (operand_word member).2
  have flags : (flagsOf args).filter VirtualFileSystem.isFlag = flagsOf args :=
    List.filter_eq_self.mpr (fun flag inside => (flagsOf_word inside).2)
  rw [flagsOf,only_words member,List.filter_append,flags]
  simp [plain]

theorem only_operands (member : target ∈ VirtualFileSystem.operands args) :
    VirtualFileSystem.operands (only args target) = [target] := by
  have plain := (operand_word member).2
  have none : (flagsOf args).filter (fun token => !VirtualFileSystem.isFlag token) = [] := by
    rw [List.filter_eq_nil_iff]
    intro flag inside
    simp [(flagsOf_word inside).2]
  rw [VirtualFileSystem.operands,only_words member,List.filter_append,none]
  simp [plain]

theorem withParents_flags (args : Text) : withParents args = (flagsOf args).any (· == "-p".toList) := by
  have flag : VirtualFileSystem.isFlag "-p".toList = true := rfl
  unfold withParents flagsOf
  rw [List.any_filter,Bool.eq_iff_iff,List.any_eq_true,List.any_eq_true]
  constructor
  · intro found
    obtain ⟨token,inside,same⟩ := found
    rw [beq_iff_eq] at same
    exact ⟨token,inside,by rw [same,flag]; rfl⟩
  · intro found
    obtain ⟨token,inside,same⟩ := found
    exact ⟨token,inside,(Bool.and_eq_true_iff.mp same).2⟩

theorem only_parents (member : target ∈ VirtualFileSystem.operands args) : withParents (only args target) = withParents args := by
  rw [withParents_flags,withParents_flags,only_flags member]

theorem only_recursive (member : target ∈ VirtualFileSystem.operands args) : isRecursive (only args target) = isRecursive args :=
  congrArg (fun flags : List Text => flags.any (fun token => token.contains 'r' || token.contains 'R')) (only_flags member)

theorem only_forced (member : target ∈ VirtualFileSystem.operands args) : isForced (only args target) = isForced args :=
  congrArg (fun flags : List Text => flags.any (fun token => token.contains 'f')) (only_flags member)

end Words

-- What an operand prints: always, or only while nothing has been printed yet.
inductive Line where
  | always (text : Text)
  | whenSilent (text : Text)

namespace Line

def text : Line → Text
  | .always text => text
  | .whenSilent text => text

def after (output : Text) : Line → Text
  | .always text => text
  | .whenSilent text => if output = [] then text else []

def IsShy : Line → Prop
  | .always _ => False
  | .whenSilent _ => True

-- A line that may be left out is not empty.
def Solid (line : Line) : Prop := line.IsShy → line.text ≠ []

theorem after_silence (line : Line) : line.after [] = line.text := by
  cases line with
  | always text => rfl
  | whenSilent text => rfl

end Line

-- Once something is printed, a line that waits for silence is lost.
def Muted : List Line → Prop
  | [] => False
  | line :: rest => (line.text = [] ∧ Muted rest) ∨ (line.text ≠ [] ∧ ∃ later ∈ rest, later.IsShy)

def together : Text → List Line → Text
  | output,[] => output
  | output,line :: rest => together (output ++ line.after output) rest

def apart (lines : List Line) : Text := lines.flatMap Line.text

section Lines

theorem together_length (lines : List Line) (output : Text) : (together output lines).length ≤ output.length + (apart lines).length := by
  induction lines generalizing output with
  | nil => simp [together]
  | cons line rest ih =>
    have bound := ih (output ++ line.after output)
    have said : (line.after output).length ≤ line.text.length := by
      cases line with
      | always text => exact Nat.le_refl _
      | whenSilent text =>
        simp only [Line.after,Line.text]
        split
        · exact Nat.le_refl _
        · exact Nat.zero_le _
    simp only [together,apart,List.flatMap_cons,List.length_append] at bound ⊢
    omega

theorem together_spoken (lines : List Line) (solid : ∀ line ∈ lines, line.Solid) (output : Text) (spoken : output ≠ []) :
    together output lines = output ++ apart lines ↔ ∀ line ∈ lines, ¬ line.IsShy := by
  induction lines generalizing output with
  | nil => simp [together,apart]
  | cons line rest ih =>
    obtain ⟨firm,others⟩ := List.forall_mem_cons.mp solid
    rw [List.forall_mem_cons]
    cases line with
    | always text =>
      have next := ih others (output ++ text) (by simp [spoken])
      rw [List.append_assoc] at next
      simpa [together,apart,Line.after,Line.text,Line.IsShy] using next
    | whenSilent text =>
      have lost : together output (.whenSilent text :: rest) ≠ output ++ apart (.whenSilent text :: rest) := by
        intro same
        have count := congrArg List.length same
        have bound := together_length rest output
        have named := List.length_pos_iff.mpr (firm trivial)
        simp only [together,Line.after,if_neg spoken,List.append_nil,apart,List.flatMap_cons,List.length_append] at count bound
        omega
      simp [lost,Line.IsShy]

theorem together_exact (lines : List Line) (solid : ∀ line ∈ lines, line.Solid) :
    together [] lines = apart lines ↔ ¬ Muted lines := by
  induction lines with
  | nil => simp [together,apart,Muted]
  | cons line rest ih =>
    obtain ⟨firm,others⟩ := List.forall_mem_cons.mp solid
    have shape : together [] (line :: rest) = together line.text rest := by
      rw [together,Line.after_silence,List.nil_append]
    have whole : apart (line :: rest) = line.text ++ apart rest := List.flatMap_cons
    rw [shape,whole,Muted]
    by_cases silent : line.text = []
    · simpa [silent] using ih others
    · rw [together_spoken rest others _ silent]
      simp [silent]

end Lines

section Fold
variable {S : Type} (step : Text × S → Text → Text × S) (line : S → Text → Line) (next : S → Text → S)

def linesFrom : S → List Text → List Line
  | _,[] => []
  | state,target :: rest => line state target :: linesFrom (next state target) rest

def stepAlone (current : Text × S) (target : Text) : Text × S :=
  (current.1 ++ (step ([],current.2) target).1,(step ([],current.2) target).2)

variable {step line next}
variable (prints : ∀ output state target, step (output,state) target = (output ++ (line state target).after output,next state target))
include prints

theorem fold_together (targets : List Text) (output : Text) (state : S) :
    targets.foldl step (output,state) = (together output (linesFrom line next state targets),targets.foldl next state) := by
  induction targets generalizing output state with
  | nil => rfl
  | cons target rest ih => rw [List.foldl_cons,prints,ih,linesFrom,together,List.foldl_cons]

theorem fold_apart (targets : List Text) (output : Text) (state : S) :
    targets.foldl (stepAlone step) (output,state) =
      (output ++ apart (linesFrom line next state targets),targets.foldl next state) := by
  induction targets generalizing output state with
  | nil => simp [linesFrom,apart]
  | cons target rest ih =>
    have one : stepAlone step (output,state) target = (output ++ (line state target).text,next state target) := by
      simp [stepAlone,prints,Line.after_silence]
    rw [List.foldl_cons,one,ih,linesFrom,List.foldl_cons]
    simp [apart]

theorem fold_exact (solid : ∀ state target, (line state target).Solid) (targets : List Text) (state : S) :
    targets.foldl step ([],state) = targets.foldl (stepAlone step) ([],state) ↔ ¬ Muted (linesFrom line next state targets) := by
  have firm : ∀ (targets : List Text) (state : S), ∀ given ∈ linesFrom line next state targets, given.Solid := by
    intro targets
    induction targets with
    | nil =>
      intro state given member
      cases member
    | cons target rest ih =>
      intro state given member
      rcases List.mem_cons.mp member with rfl | later
      · exact solid state target
      · exact ih _ given later
  rw [fold_together prints,fold_apart prints,Prod.mk.injEq,List.nil_append,together_exact _ (firm targets state)]
  simp

end Fold

section Programs
variable {σ : Type} (fs : HostFs σ)

def onDisk (state : VfsState σ) (parts : Path) : Option Entry :=
  VirtualFileSystem.layerEntry (fs.view state.host) (state.vfs.resolveUpperPath parts)

-- The complaints of the in-memory tree, the only ones that wait for silence.
def mkdirMemoryLine (parent : Option Children) (target name : Text) : Line :=
  match parent with
  | none => .whenSilent (VfsState.quoted "mkdir" "cannot create directory" "No such file or directory" target)
  | some children =>
    if (children.get name).isSome then .whenSilent (VfsState.quoted "mkdir" "cannot create directory" "File exists" target)
    else .always []

def mkdirLine (parents : Bool) (state : VfsState σ) (target : Text) : Line :=
  let parts := state.vfs.resolve target
  if parts = [] then .always "mkdir: cannot create directory '/': File exists\r\n".toList
  else if parents then .always []
  else if (onDisk fs state parts).isSome then .always (VfsState.quoted "mkdir" "cannot create directory" "File exists" target)
  else mkdirMemoryLine (state.parentDir parts) target (VfsState.baseName parts)

def rmMemoryLine (recursive force : Bool) (parent : Option Children) (target name : Text) : Line :=
  if force then .always [] else
  match parent with
  | none => .always []
  | some children => match children.get name with
    | none => .whenSilent (noSuchFile target)
    | some (.dir _ _) => if recursive then .always [] else .whenSilent (isADirectory target)
    | some (.file _) => .always []

def rmLine (recursive force : Bool) (state : VfsState σ) (target : Text) : Line :=
  let parts := state.vfs.resolve target
  if parts = [] then .always "rm: it is dangerous to operate recursively on '/'\r\n".toList
  else if onDisk fs state parts = some .dir ∧ recursive = false ∧ force = false then .always (isADirectory target)
  else rmMemoryLine recursive force (state.parentDir parts) target (VfsState.baseName parts)

def longListing (args : Text) : Bool := ((flagsOf args).flatMap (fun token => token.drop 1)).contains 'l'

def hiddenListing (args : Text) : Bool :=
  ((flagsOf args).flatMap (fun token => token.drop 1)).contains 'a' ||
    ((flagsOf args).flatMap (fun token => token.drop 1)).contains 'A'

def lineOf (args : Text) : Program → VfsState σ → Text → Line
  | .cat,state,target => .always (state.vfs.catTarget (fs.view state.host) target)
  | .ls,state,target => .always (state.vfs.lsTarget (fs.view state.host) (longListing args) (hiddenListing args)
      (state.vfs.resolve target))
  | .touch,_,_ => .always []
  | .mkdir,state,target => mkdirLine fs (withParents args) state target
  | .rm,state,target => rmLine fs (isRecursive args) (isForced args) state target

def stepOf (args : Text) : Program → Text × VfsState σ → Text → Text × VfsState σ
  | .cat,current,target => (current.1 ++ current.2.vfs.catTarget (fs.view current.2.host) target,current.2)
  | .ls,current,target => (current.1 ++ current.2.vfs.lsTarget (fs.view current.2.host) (longListing args) (hiddenListing args)
      (current.2.vfs.resolve target),current.2)
  | .touch,current,target => (current.1,VfsState.touchTarget fs current.2 target)
  | .mkdir,current,target => VfsState.mkdirTarget fs (withParents args) current target
  | .rm,current,target => VfsState.rmTarget fs (isRecursive args) (isForced args) current target

def nextOf (args : Text) (program : Program) (state : VfsState σ) (target : Text) : VfsState σ :=
  (stepOf fs args program ([],state) target).2

theorem mkdirMemory_prints (parents : Bool) (target : Text) (parts : Path) (output : Text) (state : VfsState σ) :
    VfsState.mkdirMemory parents target parts output state =
      (output ++ (if parents then .always [] else mkdirMemoryLine (state.parentDir parts) target (VfsState.baseName parts) : Line).after output,
        (VfsState.mkdirMemory parents target parts [] state).2) := by
  unfold VfsState.mkdirMemory mkdirMemoryLine
  cases parents with
  | true => simp [Line.after]
  | false =>
    cases state.parentDir parts with
    | none =>
      by_cases silent : output = []
      · simp [silent,Line.after]
      · simp [silent,Line.after]
    | some children =>
      by_cases taken : (children.get (VfsState.baseName parts)).isSome = true
      · by_cases silent : output = []
        · simp [taken,silent,Line.after]
        · simp [taken,silent,Line.after]
      · simp [taken,Line.after]

theorem createParents_parent (state : VfsState σ) (upper parts : Path) (op : DiskOp) :
    ((state.createParents fs upper).apply fs op).parentDir parts = state.parentDir parts := by
  unfold VfsState.createParents
  split
  · rfl
  · rfl

theorem mkdirTarget_prints (parents : Bool) (output : Text) (state : VfsState σ) (target : Text) :
    VfsState.mkdirTarget fs parents (output,state) target =
      (output ++ (mkdirLine fs parents state target).after output,(VfsState.mkdirTarget fs parents ([],state) target).2) := by
  unfold VfsState.mkdirTarget mkdirLine onDisk
  dsimp only
  by_cases root : state.vfs.resolve target = []
  · simp [root,Line.after]
  · simp only [if_neg root]
    cases mounted : state.vfs.resolveUpperPath (state.vfs.resolve target) with
    | none =>
      simp only [VirtualFileSystem.layerEntry,Option.bind_none,Option.isSome_none,Bool.false_eq_true,if_false]
      exact mkdirMemory_prints parents target _ output state
    | some upper =>
      simp only [VirtualFileSystem.layerEntry,Option.bind_some]
      cases parents with
      | true => exact mkdirMemory_prints true target _ output _
      | false =>
        simp only [Bool.false_eq_true,if_false]
        by_cases present : ((fs.view state.host).entry upper).isSome = true
        · simp only [present,if_true,Line.after]
        · simp only [present]
          by_cases top : upper = []
          · simp only [top,if_true]
            exact mkdirMemory_prints false target _ output state
          · have printed := mkdirMemory_prints false target (state.vfs.resolve target) output
              ((state.createParents fs upper).apply fs (.createDir upper))
            rw [createParents_parent] at printed
            simp only [top,if_false]
            exact printed

theorem rmMemory_prints (recursive force : Bool) (target : Text) (parts : Path) (output : Text) (state : VfsState σ) :
    VfsState.rmMemory recursive force target parts output state =
      (output ++ (rmMemoryLine recursive force (state.parentDir parts) target (VfsState.baseName parts)).after output,
        (VfsState.rmMemory recursive force target parts [] state).2) := by
  unfold VfsState.rmMemory rmMemoryLine
  cases state.parentDir parts with
  | none =>
    cases force with
    | true => simp [Line.after]
    | false => simp [Line.after]
  | some children =>
    dsimp only
    rcases children.get (VfsState.baseName parts) with _ | (node | ⟨perms,inner⟩)
    · cases force with
      | true => simp [Line.after]
      | false =>
        by_cases silent : output = []
        · simp [silent,Line.after,noSuchFile]
        · simp [silent,Line.after]
    · cases force with
      | true => simp [Line.after]
      | false => simp [Line.after]
    · cases recursive with
      | true =>
        cases force with
        | true => simp [Line.after]
        | false => simp [Line.after]
      | false =>
        cases force with
        | true => simp [Line.after]
        | false =>
          by_cases silent : output = []
          · simp [silent,Line.after,isADirectory]
          · simp [silent,Line.after]

-- The disk has no say in what the tree holds.
theorem rmDisk_parent (removed : VfsState.rmDisk fs recursive force state upper = some after) (parts : Path) :
    after.parentDir parts = state.parentDir parts := by
  unfold VfsState.rmDisk at removed
  split at removed
  · split at removed
    · cases removed
      rfl
    · split at removed
      · cases removed
        rfl
      · cases removed
  · cases removed
    rfl
  · cases removed
    rfl

theorem rmDisk_refused (recursive force : Bool) (state : VfsState σ) (upper : Path) :
    VfsState.rmDisk fs recursive force state upper = none ↔
      (fs.view state.host).entry upper = some .dir ∧ recursive = false ∧ force = false := by
  unfold VfsState.rmDisk
  rcases (fs.view state.host).entry upper with _ | (_ | content)
  · simp
  · cases recursive with
    | true => simp
    | false =>
      cases force with
      | true => simp
      | false => simp
  · simp

theorem rmTarget_prints (recursive force : Bool) (output : Text) (state : VfsState σ) (target : Text) :
    VfsState.rmTarget fs recursive force (output,state) target = (output ++ (rmLine fs recursive force state target).after output,
      (VfsState.rmTarget fs recursive force ([],state) target).2) := by
  unfold VfsState.rmTarget rmLine
  dsimp only
  by_cases root : state.vfs.resolve target = []
  · simp [root,Line.after]
  · simp only [if_neg root]
    cases mounted : state.vfs.resolveUpperPath (state.vfs.resolve target) with
    | none =>
      have absent : onDisk fs state (state.vfs.resolve target) = none := by
        simp [onDisk,VirtualFileSystem.layerEntry,mounted]
      rw [if_neg (fun refused => by cases absent.symm.trans refused.1)]
      exact rmMemory_prints recursive force target _ output state
    | some upper =>
      have held : onDisk fs state (state.vfs.resolve target) = (fs.view state.host).entry upper := by
        simp [onDisk,VirtualFileSystem.layerEntry,mounted]
      have refusal := rmDisk_refused fs recursive force state upper
      rw [← held] at refusal
      cases removed : VfsState.rmDisk fs recursive force state upper with
      | none =>
        rw [if_pos (refusal.mp removed)]
        simp [Line.after,isADirectory,removed]
      | some after =>
        rw [if_neg (fun refused => by cases (refusal.mpr refused).symm.trans removed),← rmDisk_parent fs removed]
        simp only [removed]
        exact rmMemory_prints recursive force target _ output after

theorem stepOf_prints (args : Text) (program : Program) (output : Text) (state : VfsState σ) (target : Text) :
    stepOf fs args program (output,state) target =
      (output ++ (lineOf fs args program state target).after output,nextOf fs args program state target) := by
  cases program with
  | cat => rfl
  | ls => rfl
  | touch => simp [stepOf,lineOf,nextOf,Line.after]
  | mkdir => exact mkdirTarget_prints fs (withParents args) output state target
  | rm => exact rmTarget_prints fs (isRecursive args) (isForced args) output state target

theorem quoted_solid (command target reason : String) (name : Text) (named : command.toList ≠ []) :
    VfsState.quoted command target reason name ≠ [] := by
  simp [VfsState.quoted,named]

theorem lineOf_solid (args : Text) (program : Program) (state : VfsState σ) (target : Text) :
    (lineOf fs args program state target).Solid := by
  cases program with
  | cat => exact fun shy => absurd shy id
  | ls => exact fun shy => absurd shy id
  | touch => exact fun shy => absurd shy id
  | mkdir =>
    simp only [lineOf,mkdirLine,mkdirMemoryLine]
    split
    · exact fun shy => absurd shy id
    · split
      · exact fun shy => absurd shy id
      · split
        · exact fun shy => absurd shy id
        · split
          · exact fun _ => quoted_solid _ _ _ _ (by decide)
          · split
            · exact fun _ => quoted_solid _ _ _ _ (by decide)
            · exact fun shy => absurd shy id
  | rm =>
    simp only [lineOf,rmLine,rmMemoryLine]
    split
    · exact fun shy => absurd shy id
    · split
      · exact fun shy => absurd shy id
      · split
        · exact fun shy => absurd shy id
        · split
          · exact fun shy => absurd shy id
          · split
            · exact fun _ => quoted_solid _ _ _ _ (by decide)
            · split
              · exact fun shy => absurd shy id
              · exact fun _ => quoted_solid _ _ _ _ (by decide)
            · exact fun shy => absurd shy id

-- A command is the fold of its step, and on one operand the step alone.
theorem run_fold (program : Program) (args : Text) (state : VfsState σ) (some_ : VirtualFileSystem.operands args ≠ []) :
    state.run fs (program.on args) = (VirtualFileSystem.operands args).foldl (stepOf fs args program) ([],state) := by
  have printed : ∀ (put : VfsState σ → Text → Text) (targets : List Text) (output : Text),
      targets.foldl (fun current target => (current.1 ++ put current.2 target,current.2)) (output,state) =
        (output ++ targets.flatMap (put state),state) := by
    intro put targets
    induction targets with
    | nil => simp
    | cons target rest ih =>
      intro output
      rw [List.foldl_cons,ih]
      simp
  cases program with
  | cat =>
    refine Eq.trans ?_ (printed (fun state target => state.vfs.catTarget (fs.view state.host) target) _ []).symm
    rfl
  | ls =>
    refine Eq.trans ?_ (printed (fun state target => state.vfs.lsTarget (fs.view state.host) (longListing args)
      (hiddenListing args) (state.vfs.resolve target)) _ []).symm
    change (VirtualFileSystem.ls state.vfs (fs.view state.host) args,state) = _
    unfold VirtualFileSystem.ls
    dsimp only
    rw [if_neg some_,List.flatMap_map]
    rfl
  | touch =>
    have quiet : ∀ (targets : List Text) (current : Text × VfsState σ),
        targets.foldl (stepOf fs args .touch) current = (current.1,targets.foldl (VfsState.touchTarget fs) current.2) := by
      intro targets
      induction targets with
      | nil => exact fun _ => rfl
      | cons target rest ih =>
        intro current
        rw [List.foldl_cons,ih,List.foldl_cons]
        rfl
    rw [quiet]
    change VfsState.touch fs state args = _
    unfold VfsState.touch
    dsimp only
    rw [if_neg some_]
  | mkdir =>
    change VfsState.mkdir fs state args = _
    unfold VfsState.mkdir
    dsimp only
    rw [if_neg some_]
    rfl
  | rm =>
    change VfsState.rm fs state args = _
    unfold VfsState.rm
    dsimp only
    rw [if_neg some_]
    rfl

theorem stepOf_only (member : target ∈ VirtualFileSystem.operands args) (program : Program) :
    stepOf fs (only args target) program = stepOf fs args program := by
  have long : longListing (only args target) = longListing args := by
    unfold longListing
    rw [only_flags member]
  have hidden : hiddenListing (only args target) = hiddenListing args := by
    unfold hiddenListing
    rw [only_flags member]
  funext current other
  cases program with
  | cat => rfl
  | ls => simp only [stepOf,long,hidden]
  | touch => rfl
  | mkdir => simp only [stepOf,only_parents member]
  | rm => simp only [stepOf,only_recursive member,only_forced member]

theorem run_only (member : target ∈ VirtualFileSystem.operands args) (program : Program) (state : VfsState σ) :
    state.run fs (program.on (only args target)) = stepOf fs args program ([],state) target := by
  rw [run_fold fs program (only args target) state (by rw [only_operands member]; simp),only_operands member,
    stepOf_only fs member]
  rfl

def each (program : Program) (args : Text) (current : Text × VfsState σ) (target : Text) : Text × VfsState σ :=
  let answer := current.2.run fs (program.on (only args target))
  (current.1 ++ answer.1,answer.2)

def oneByOne (program : Program) (args : Text) (state : VfsState σ) : Text × VfsState σ :=
  (VirtualFileSystem.operands args).foldl (each fs program args) ([],state)

theorem oneByOne_fold (program : Program) (args : Text) (state : VfsState σ) : oneByOne fs program args state =
    (VirtualFileSystem.operands args).foldl (stepAlone (stepOf fs args program)) ([],state) := by
  refine List.foldl_ext _ _ _ ?_
  intro current target member
  unfold each stepAlone
  rw [run_only fs member]

-- What the operands print, each in the state that those before it leave.
def linesOf (program : Program) (args : Text) (state : VfsState σ) : List Line :=
  linesFrom (lineOf fs args program) (nextOf fs args program) state (VirtualFileSystem.operands args)

-- The state at the end is the same in every case.
theorem operands_state (program : Program) (args : Text) (state : VfsState σ) (some_ : VirtualFileSystem.operands args ≠ []) :
    (state.run fs (program.on args)).2 = (oneByOne fs program args state).2 := by
  rw [run_fold fs program args state some_,oneByOne_fold,fold_together (stepOf_prints fs args program),
    fold_apart (stepOf_prints fs args program)]

theorem operand_lists_split_iff (program : Program) (args : Text) (state : VfsState σ) (some_ : VirtualFileSystem.operands args ≠ []) :
    state.run fs (program.on args) = oneByOne fs program args state ↔ ¬ Muted (linesOf fs program args state) := by
  rw [run_fold fs program args state some_,oneByOne_fold]
  exact fold_exact (stepOf_prints fs args program) (lineOf_solid fs args program) _ state

end Programs

-- A session without a sandbox.
def bare : VfsState Disk := ⟨VirtualFileSystem.withRoots none (some ["rootfs".toList]),∅⟩

-- Both operands print, the one that waits for silence before the other.
theorem printing_removals_split :
    VirtualFileSystem.operands "nope1 /".toList ≠ [] ∧
      bare.run plain (Program.rm.on "nope1 /".toList) = oneByOne plain .rm "nope1 /".toList bare ∧
      (oneByOne plain .rm "nope1 /".toList bare).1 =
        noSuchFile "nope1".toList ++ "rm: it is dangerous to operate recursively on '/'\r\n".toList := by
  have some_ : VirtualFileSystem.operands "nope1 /".toList ≠ [] := by decide
  have lines : linesOf plain .rm "nope1 /".toList bare =
      [.whenSilent (noSuchFile "nope1".toList),.always "rm: it is dangerous to operate recursively on '/'\r\n".toList] := by
    rfl
  have split : ¬ Muted (linesOf plain .rm "nope1 /".toList bare) := by
    rw [lines]
    rintro (⟨empty,_⟩ | ⟨_,later,member,shy⟩)
    · cases empty
    · rw [List.mem_singleton.mp member] at shy
      exact shy
  exact ⟨some_,(operand_lists_split_iff plain .rm "nope1 /".toList bare some_).mpr split,by decide⟩

theorem second_error_swallowed :
    (bare.run plain (Program.rm.on "nope1 nope2".toList)).1 = noSuchFile "nope1".toList ∧
    (oneByOne plain .rm "nope1 nope2".toList bare).1 = noSuchFile "nope1".toList ++ noSuchFile "nope2".toList ∧
    bare.run plain (Program.rm.on "nope1 nope2".toList) ≠ oneByOne plain .rm "nope1 nope2".toList bare := by
  have one : (bare.run plain (Program.rm.on "nope1 nope2".toList)).1 = noSuchFile "nope1".toList := by decide
  have two : (oneByOne plain .rm "nope1 nope2".toList bare).1 = noSuchFile "nope1".toList ++ noSuchFile "nope2".toList := by
    decide
  refine ⟨one,two,?_⟩
  intro same
  rw [same,two] at one
  exact absurd one (by decide)

end AegisHoneypot.OperandLists
