import AegisHoneypot.MergedView

-- What `rm` says about a path, and what is left of it in each layer.
namespace AegisHoneypot.LayeredRemoval
open FileTree Utf8Text VfsNode Vfs VfsTree VfsDepth MergedView

def isRecursive (args : Text) : Bool :=
  (args.splitWhitespace.filter VirtualFileSystem.isFlag).any (fun token => token.contains 'r' || token.contains 'R')

def isForced (args : Text) : Bool :=
  (args.splitWhitespace.filter VirtualFileSystem.isFlag).any (fun token => token.contains 'f')

def noSuchFile (target : Text) : Text := VfsState.quoted "rm" "cannot remove" "No such file or directory" target

def isADirectory (target : Text) : Text := VfsState.quoted "rm" "cannot remove" "Is a directory" target

theorem rm_single (fs : HostFs σ) (state : VfsState σ) (single : VirtualFileSystem.operands args = [target])
    (gentle : isForced args = false) :
    VfsState.rm fs state args = VfsState.rmTarget fs (isRecursive args) false ([],state) target := by
  unfold isForced at gentle
  unfold VfsState.rm isRecursive
  dsimp only
  rw [single,gentle]
  rfl

section Memory
variable {σ : Type} {state : VfsState σ} {parts : Path}

-- What the in-memory half of `rm` answers, by what the tree holds.
inductive MemoryRemoval (recursive : Bool) (target : Text) (parts : Path) (state : VfsState σ) : Text × VfsState σ → Prop
  | orphan (lost : state.parentDir parts = none) : MemoryRemoval recursive target parts state ([],state)
  | missing (parent : (state.parentDir parts).isSome) (free : memory state.vfs parts = none) :
      MemoryRemoval recursive target parts state (noSuchFile target,state)
  | kept (parent : (state.parentDir parts).isSome) (dir : memory state.vfs parts = some .dir) (flat : recursive = false) :
      MemoryRemoval recursive target parts state (isADirectory target,state)
  | removed (parent : (state.parentDir parts).isSome) (after : VfsState σ) (held : memory state.vfs parts = some sight)
      (fits : sight = .dir → recursive = true) (host : after.host = state.host) (same : SameRoots state.vfs after.vfs)
      (gone : memory after.vfs parts = none) : MemoryRemoval recursive target parts state ([],after)

theorem rmMemory_removal (named : parts ≠ []) (recursive : Bool) (target : Text) :
    MemoryRemoval recursive target parts state (VfsState.rmMemory recursive false target parts [] state) := by
  unfold VfsState.rmMemory
  cases found : state.parentDir parts with
  | none => exact .orphan found
  | some children =>
    have parent : (state.parentDir parts).isSome := by simp [found]
    have held := memory_parent named found
    have removed : memory (state.setParent parts (children.remove (VfsState.baseName parts))).vfs parts = none := by
      rw [memory,setParent_lookAt state named found (remove_replaces children _),if_pos (List.prefix_refl _)]
      rfl
    dsimp only
    rcases node : children.get (VfsState.baseName parts) with _ | (file | ⟨perms,inner⟩)
    · rw [node] at held
      exact .missing parent held
    · rw [node] at held
      refine .removed parent _ held ?_ rfl (setParent_roots _ _ _) removed
      intro dir
      obtain ⟨perms,given⟩ := ofLook_dir.mp dir
      cases given
    · rw [node] at held
      cases recursive with
      | false => exact .kept parent held rfl
      | true => exact .removed parent _ held (fun _ => rfl) rfl (setParent_roots _ _ _) removed

end Memory

section Disk
variable {state : VfsState Disk}

-- Where the golden image shows a path inside what the writable layer holds there,
-- as it does when the two are one directory, both lose it together.
def Shared (state : VfsState Disk) (parts : Path) : Prop :=
  (upperAt state parts).isSome ∧ ∃ above below, state.vfs.resolveUpperPath parts = some above ∧
    state.vfs.resolveLowerPath parts = some below ∧ above <+: below

-- The writable layer first; a directory there ends a plain `rm`.
inductive Removal (recursive : Bool) (target : Text) (parts : Path) (state : VfsState Disk) : Text × VfsState Disk → Prop
  | refused (dir : upperAt state parts = some .dir) (flat : recursive = false) :
      Removal recursive target parts state (isADirectory target,state)
  | cleared (middle : VfsState Disk) (open_ : upperAt state parts = some .dir → recursive = true)
      (vfs : middle.vfs = state.vfs) (gone : upperAt middle parts = none)
      (image : lowerAt middle parts = none ↔ lowerAt state parts = none ∨ Shared state parts)
      (idle : upperAt state parts = none → middle = state) (rest : MemoryRemoval recursive target parts middle answer) :
      Removal recursive target parts state answer

theorem unshared (free : upperAt state parts = none) : lowerAt state parts = none ↔ lowerAt state parts = none ∨ Shared state parts := by
  refine ⟨Or.inl,fun given => given.elim id ?_⟩
  rintro ⟨held,_⟩
  rw [free] at held
  cases held

-- What a removal on the writable layer leaves of the golden image.
theorem lowerAt_removed (named : parts ≠ []) (plainParts : Plain parts) (mounted : state.vfs.mountRoot = some base) (op : DiskOp)
    (removed : ∀ path, path ≠ [] → entry (FileTree.apply state.host op) path = if base ++ parts <+: path then none else entry state.host path)
    (present : (upperAt state parts).isSome) :
    lowerAt (state.apply plain op) parts = none ↔ lowerAt state parts = none ∨ Shared state parts := by
  cases imaged : state.vfs.lowerRoot with
  | none =>
    have nowhere : ∀ other : VfsState Disk, other.vfs = state.vfs → lowerAt other parts = none := by
      intro other same
      rw [lowerAt,lower,same,VirtualFileSystem.resolveLowerPath,imaged]
      rfl
    exact iff_of_true (nowhere _ rfl) (Or.inl (nowhere _ rfl))
  | some low =>
    have shown : ∀ other : VfsState Disk, other.vfs = state.vfs → lowerAt other parts = entry other.host (low ++ parts) := by
      intro other same
      rw [lowerAt,lower,same,lowerPath_plain imaged plainParts]
      rfl
    have shared : Shared state parts ↔ base ++ parts <+: low ++ parts := by
      rw [Shared,upperPath_plain mounted plainParts,lowerPath_plain imaged plainParts]
      simp [present]
    have after : lowerAt (state.apply plain op) parts = if base ++ parts <+: low ++ parts then none else lowerAt state parts := by
      rw [shown state rfl]
      exact (shown (state.apply plain op) rfl).trans (removed (low ++ parts) (by simp [named]))
    rw [after,shared]
    split
    · rename_i inside
      exact iff_of_true rfl (Or.inr inside)
    · rename_i outside
      exact ⟨Or.inl,fun given => given.resolve_right outside⟩

-- Without directories of its own a session loses what it removes from the image.
theorem one_layer_cleared (same : state.vfs.lowerRoot = state.vfs.mountRoot) (parts : Path) :
    lowerAt state parts = none ∨ Shared state parts := by
  rw [lowerAt_same same]
  cases held : upperAt state parts with
  | none => exact Or.inl rfl
  | some present =>
    have place : state.vfs.resolveLowerPath parts = state.vfs.resolveUpperPath parts := by
      rw [VirtualFileSystem.resolveLowerPath,VirtualFileSystem.resolveUpperPath,same]
    cases above : state.vfs.resolveUpperPath parts with
    | none =>
      rw [upperAt,upper,above] at held
      cases held
    | some path => exact Or.inr ⟨by rw [held]; rfl,path,path,above,place.trans above,List.prefix_refl _⟩

theorem rmTarget_removal (layered : Layered state) (named : state.vfs.resolve target ≠ []) (recursive : Bool) :
    Removal recursive target (state.vfs.resolve target) state (VfsState.rmTarget plain recursive false ([],state) target) := by
  have plainParts := resolve_plain state.vfs layered.placed target
  unfold VfsState.rmTarget
  dsimp only
  rw [if_neg named]
  cases mounted : state.vfs.mountRoot with
  | none =>
    have unmounted := upper_unmounted mounted (plain.view state.host) (state.vfs.resolve target)
    have nowhere : state.vfs.resolveUpperPath (state.vfs.resolve target) = none := by
      rw [VirtualFileSystem.resolveUpperPath,mounted]
      rfl
    rw [nowhere]
    refine .cleared state ?_ rfl unmounted (unshared unmounted) (fun _ => rfl) (rmMemory_removal named recursive target)
    intro dir
    rw [upperAt,unmounted] at dir
    cases dir
  | some base =>
    rw [layered.upperPath mounted target]
    have place : ∀ disk, upper (plain.view disk) state.vfs (state.vfs.resolve target) = entry disk (base ++ state.vfs.resolve target) :=
      fun disk => upper_entry mounted plainParts
    generalize state.vfs.resolve target = parts at named plainParts place ⊢
    have below : base ++ parts ≠ [] := by simp [named]
    have cleared : ∀ op : DiskOp, (∀ path, path ≠ [] → entry (FileTree.apply state.host op) path =
          if base ++ parts <+: path then none else entry state.host path) → (upperAt state parts).isSome →
        (upperAt state parts = some .dir → recursive = true) →
        Removal recursive target parts state (VfsState.rmMemory recursive false target parts [] (state.apply plain op)) := by
      intro op removed present fits
      refine .cleared (state.apply plain op) fits rfl ?_ (lowerAt_removed named plainParts mounted op removed present) ?_
        (rmMemory_removal named recursive target)
      · exact (place _).trans ((removed _ below).trans (if_pos (List.prefix_refl _)))
      · intro free
        rw [free] at present
        cases present
    dsimp only
    unfold VfsState.rmDisk
    rcases held : entry state.host (base ++ parts) with _ | (_ | content)
    · rw [show (plain.view state.host).entry (base ++ parts) = none from held]
      have free : upperAt state parts = none := (place _).trans held
      refine .cleared state ?_ rfl free (unshared free) (fun _ => rfl) (rmMemory_removal named recursive target)
      intro dir
      rw [free] at dir
      cases dir
    · rw [show (plain.view state.host).entry (base ++ parts) = some .dir from held]
      have dir : upperAt state parts = some .dir := (place _).trans held
      cases recursive with
      | false => exact .refused dir rfl
      | true =>
        exact cleared (.removeDirAll (base ++ parts)) (fun path root => removeDirAll_entry _ _ _ root (by simp [isDir,held]))
          (by rw [dir]; rfl) (fun _ => rfl)
    · rw [show (plain.view state.host).entry (base ++ parts) = some (.file content) from held]
      have file : upperAt state parts = some (.file content) := (place _).trans held
      refine cleared (.removeFile (base ++ parts)) (fun path _ => removeFile_entry layered.shaped held path) (by rw [file]; rfl) ?_
      intro dir
      rw [file] at dir
      cases dir

end Disk

def Removable (recursive : Bool) : Option Sight → Prop
  | none => False
  | some .dir => recursive = true
  | some _ => True

def Gone (state : VfsState Disk) (parts : Path) : Prop :=
  upperAt state parts = none ∧ lowerAt state parts = none ∧ memory state.vfs parts = none

structure Honest (state : VfsState Disk) (target : Text) (parts : Path) (recursive : Bool) (answer : Text × VfsState Disk) : Prop where
  quiet : answer.1 = [] ↔ Removable recursive (mergedAt state parts)
  gone : answer.1 = [] → Gone answer.2 parts
  missing : mergedAt state parts = none → answer.1 = noSuchFile target
  unchanged : answer.1 ≠ [] → answer.2 = state

-- A golden image apart from the writable layer can not be changed, and the tree
-- decides what is said.
def Clearable (state : VfsState Disk) (parts : Path) (recursive : Bool) : Prop :=
  (lowerAt state parts = none ∨ Shared state parts) ∧
  ((state.parentDir parts).isSome → ∃ sight, memory state.vfs parts = some sight ∧ (sight = .dir → recursive = true))

def Refusable (state : VfsState Disk) (parts : Path) : Prop :=
  upperAt state parts = some .dir ∨
  ((state.parentDir parts).isSome ∧ ∀ sight, memory state.vfs parts = some sight → sight = .dir)

def InStep (state : VfsState Disk) (parts : Path) (recursive : Bool) : Prop :=
  match mergedAt state parts with
  | none => (state.parentDir parts).isSome
  | some .dir => if recursive then Clearable state parts recursive else Refusable state parts
  | some _ => Clearable state parts recursive

section Outcomes
variable {state : VfsState Disk} {parts : Path} {recursive : Bool} {answer : Text × VfsState Disk}

-- A removal that prints nothing.
theorem honest_quiet (silent : answer.1 = []) : Honest state target parts recursive answer ↔
    Removable recursive (mergedAt state parts) ∧ Gone answer.2 parts := by
  constructor
  · intro honest
    exact ⟨honest.quiet.mp silent,honest.gone silent⟩
  · rintro ⟨removable,gone⟩
    refine ⟨⟨fun _ => removable,fun _ => silent⟩,fun _ => gone,?_,fun spoken => absurd silent spoken⟩
    intro missing
    rw [missing] at removable
    exact removable.elim

-- One that prints an error.
theorem honest_spoken (spoken : answer.1 ≠ []) : Honest state target parts recursive answer ↔
    ¬ Removable recursive (mergedAt state parts) ∧ (mergedAt state parts = none → answer.1 = noSuchFile target) ∧
      answer.2 = state := by
  constructor
  · intro honest
    exact ⟨fun removable => spoken (honest.quiet.mpr removable),honest.missing,honest.unchanged spoken⟩
  · rintro ⟨fixed,missing,unchanged⟩
    exact ⟨⟨fun silent => absurd silent spoken,fun removable => absurd removable fixed⟩,
      fun silent => absurd silent spoken,missing,fun _ => unchanged⟩

theorem inStep_removable (removable : Removable recursive (mergedAt state parts)) :
    InStep state parts recursive ↔ Clearable state parts recursive := by
  unfold InStep
  rcases shown : mergedAt state parts with _ | (_ | content | _)
  · rw [shown] at removable
    exact removable.elim
  · rw [shown] at removable
    rw [show recursive = true from removable]
    rfl
  · rfl
  · rfl

theorem inStep_fixed (fixed : ¬ Removable recursive (mergedAt state parts)) (present : mergedAt state parts ≠ none) :
    mergedAt state parts = some .dir ∧ recursive = false ∧ (InStep state parts recursive ↔ Refusable state parts) := by
  unfold InStep
  rcases shown : mergedAt state parts with _ | (_ | content | _)
  · exact absurd shown present
  · rw [shown] at fixed
    have flat : recursive = false := by simpa [Removable] using fixed
    subst flat
    exact ⟨rfl,rfl,Iff.rfl⟩
  · rw [shown] at fixed
    exact absurd trivial fixed
  · rw [shown] at fixed
    exact absurd trivial fixed

-- Where a directory is shown and the writable layer has none, it has nothing.
theorem upperAt_clear (named : parts ≠ []) (dir : mergedAt state parts = some .dir) (other : upperAt state parts ≠ some .dir) :
    upperAt state parts = none := by
  rcases held : upperAt state parts with _ | (_ | content)
  · rfl
  · exact absurd held other
  · have shown : mergedAt state parts = some (.file content) := merged_upper named held
    rw [dir] at shown
    cases shown

theorem removal_quiet (named : parts ≠ []) (silent : answer.1 = []) (fits : upperAt state parts = some .dir → recursive = true)
    (gone : Gone answer.2 parts ↔ lowerAt state parts = none ∨ Shared state parts)
    (tree : (state.parentDir parts).isSome → ∃ sight, memory state.vfs parts = some sight ∧ (sight = .dir → recursive = true)) :
    Honest state target parts recursive answer ↔ InStep state parts recursive := by
  rw [honest_quiet silent,gone]
  by_cases removable : Removable recursive (mergedAt state parts)
  · rw [inStep_removable removable]
    exact ⟨fun given => ⟨given.2,tree⟩,fun given => ⟨removable,given.1⟩⟩
  · refine ⟨fun given => absurd given.1 removable,?_⟩
    intro inStep
    by_cases missing : mergedAt state parts = none
    · unfold InStep at inStep
      rw [missing] at inStep
      obtain ⟨sight,held,_⟩ := tree inStep
      rw [((mergedAt_none named).mp missing).2.2] at held
      cases held
    · obtain ⟨dir,flat,exactly⟩ := inStep_fixed removable missing
      rcases exactly.mp inStep with above | ⟨parent,only⟩
      · cases flat.symm.trans (fits above)
      · obtain ⟨sight,held,deep⟩ := tree parent
        cases flat.symm.trans (deep (only sight held))

theorem removal_spoken (named : parts ≠ []) (spoken : answer.1 ≠ []) (fits : upperAt state parts = some .dir → recursive = true)
    (parent : (state.parentDir parts).isSome) (idle : upperAt state parts = none → answer.2 = state)
    (tree : ∀ sight, memory state.vfs parts = some sight → sight = .dir ∧ recursive = false)
    (missing : memory state.vfs parts = none → answer.1 = noSuchFile target) :
    Honest state target parts recursive answer ↔ InStep state parts recursive := by
  rw [honest_spoken spoken]
  by_cases removable : Removable recursive (mergedAt state parts)
  · refine ⟨fun given => absurd removable given.1,?_⟩
    intro inStep
    obtain ⟨sight,held,deep⟩ := ((inStep_removable removable).mp inStep).2 parent
    obtain ⟨dir,flat⟩ := tree sight held
    cases flat.symm.trans (deep dir)
  · by_cases absent : mergedAt state parts = none
    · obtain ⟨above,_,free⟩ := (mergedAt_none named).mp absent
      refine ⟨fun _ => ?_,fun _ => ⟨removable,fun _ => missing free,idle above⟩⟩
      unfold InStep
      rw [absent]
      exact parent
    · obtain ⟨dir,flat,exactly⟩ := inStep_fixed removable absent
      rw [exactly]
      have above := upperAt_clear named dir (fun given => by cases flat.symm.trans (fits given))
      refine ⟨fun _ => Or.inr ⟨parent,fun sight held => (tree sight held).1⟩,fun _ => ⟨removable,?_,idle above⟩⟩
      intro none
      exact absurd none absent

theorem removal_exact (named : parts ≠ []) (removal : Removal recursive target parts state answer) :
    Honest state target parts recursive answer ↔ InStep state parts recursive := by
  have speaks : noSuchFile target ≠ [] ∧ isADirectory target ≠ [] := ⟨quoted_some _ _ _ _ (by decide),quoted_some _ _ _ _ (by decide)⟩
  cases removal with
  | refused dir flat =>
    have shown : mergedAt state parts = some .dir := merged_upper named dir
    have fixed : ¬ Removable recursive (mergedAt state parts) := by
      rw [shown,flat]
      intro removable
      cases removable
    have present : mergedAt state parts ≠ none := by
      rw [shown]
      intro missing
      cases missing
    rw [honest_spoken speaks.2,(inStep_fixed fixed present).2.2]
    exact ⟨fun _ => Or.inl dir,fun _ => ⟨fixed,fun missing => absurd missing present,rfl⟩⟩
  | cleared middle fits vfs gone image idle rest =>
    have parents : middle.parentDir parts = state.parentDir parts := by rw [VfsState.parentDir,VfsState.parentDir,vfs]
    cases rest with
    | orphan lost =>
      have free : memory state.vfs parts = none := memory_orphan named (parents ▸ lost)
      refine removal_quiet named rfl fits ?_ ?_
      · rw [← image,Gone,vfs]
        exact ⟨fun given => given.2.1,fun none => ⟨gone,none,free⟩⟩
      · rw [← parents,lost]
        intro parent
        cases parent
    | missing parent free =>
      rw [vfs] at free
      refine removal_spoken named speaks.1 fits (parents ▸ parent) idle ?_ (fun _ => rfl)
      intro sight held
      rw [free] at held
      cases held
    | kept parent dir flat =>
      rw [vfs] at dir
      refine removal_spoken named speaks.2 fits (parents ▸ parent) idle ?_ ?_
      · intro sight held
        rw [dir] at held
        cases held
        exact ⟨rfl,flat⟩
      · intro free
        rw [dir] at free
        cases free
    | removed parent after held deep host same lost =>
      rw [vfs] at held
      refine removal_quiet named rfl fits ?_ (fun _ => ⟨_,held,deep⟩)
      have above : upperAt after parts = none := by
        rw [upperAt,upper,host,same.upperPath]
        exact gone
      have below : lowerAt after parts = lowerAt middle parts := by
        rw [lowerAt,lower,host,same.lowerPath]
        rfl
      rw [← image,Gone,below]
      exact ⟨fun given => given.2.1,fun none => ⟨above,none,lost⟩⟩

end Outcomes

theorem removal_honest (state : VfsState Disk) (args target : Text) (layered : Layered state)
    (single : VirtualFileSystem.operands args = [target]) (gentle : isForced args = false)
    (named : state.vfs.resolve target ≠ []) :
    Honest state target (state.vfs.resolve target) (isRecursive args) (VfsState.rm plain state args) ↔
      InStep state (state.vfs.resolve target) (isRecursive args) := by
  rw [rm_single plain state single gentle]
  exact removal_exact named (rmTarget_removal layered named (isRecursive args))

-- A golden image that holds one of the files of the in-memory tree.
def image : List DiskOp := [.createDirAll ["rootfs".toList,"etc".toList],
  .write ["rootfs".toList,"etc".toList,"passwd".toList] (encode "root".toList)]

def imaged : VfsState Disk := sandbox image

-- A session without directories of its own removes the file from the image.
theorem shared_file_removed :
    let state := unsandboxed image
    Honest state "/etc/passwd".toList (state.vfs.resolve "/etc/passwd".toList) (isRecursive "/etc/passwd".toList)
      (VfsState.rm plain state "/etc/passwd".toList) := by
  intro state
  have shown : mergedAt state (state.vfs.resolve "/etc/passwd".toList) = some (.file (encode "root".toList)) := by decide
  have inStep : InStep state (state.vfs.resolve "/etc/passwd".toList) (isRecursive "/etc/passwd".toList) := by
    unfold InStep
    rw [shown]
    refine ⟨one_layer_cleared rfl _,fun _ => ?_⟩
    cases held : memory state.vfs (state.vfs.resolve "/etc/passwd".toList) with
    | none => exact absurd held (by decide)
    | some sight =>
      refine ⟨sight,rfl,?_⟩
      rintro rfl
      exact absurd held (by decide)
  exact (removal_honest state "/etc/passwd".toList "/etc/passwd".toList (unsandboxed_layered _) (by decide) (by decide)
    (by decide)).mpr inStep

theorem golden_file_survives :
    Layered imaged ∧ isForced "/etc/passwd".toList = false ∧
    (VfsState.rm plain imaged "/etc/passwd".toList).1 = [] ∧
    mergedAt (VfsState.rm plain imaged "/etc/passwd".toList).2 ["etc".toList,"passwd".toList] =
      some (.file (encode "root".toList)) ∧
    ¬ Honest imaged "/etc/passwd".toList (imaged.vfs.resolve "/etc/passwd".toList) (isRecursive "/etc/passwd".toList)
      (VfsState.rm plain imaged "/etc/passwd".toList) := by
  have silent : (VfsState.rm plain imaged "/etc/passwd".toList).1 = [] := by decide
  have held : lowerAt (VfsState.rm plain imaged "/etc/passwd".toList).2 (imaged.vfs.resolve "/etc/passwd".toList) =
      some (.file (encode "root".toList)) := by decide
  refine ⟨sandbox_layered _,by decide,silent,by decide,?_⟩
  intro honest
  have gone := (honest.gone silent).2.1
  rw [held] at gone
  cases gone

end AegisHoneypot.LayeredRemoval
