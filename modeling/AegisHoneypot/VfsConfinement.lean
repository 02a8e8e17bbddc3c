import AegisHoneypot.VirtualFileSystem

namespace AegisHoneypot.Vfs
open VfsNode FileTree Utf8Text

def Plain (parts : Path) : Prop := ∀ part ∈ parts, VirtualFileSystem.skipped part = false

theorem pushComponent_plain (plain : Plain parts) (component : Text) (whole : '/' ∉ component) :
    Plain (VirtualFileSystem.pushComponent parts component) := by
  unfold VirtualFileSystem.pushComponent
  split
  · exact plain
  · rename_i named
    split
    · exact fun part member => plain part (List.mem_of_mem_dropLast member)
    · rename_i down
      rw [not_or] at named
      intro part member
      rcases List.mem_append.mp member with old | new
      · exact plain part old
      · rw [List.mem_singleton.mp new]
        simp only [VirtualFileSystem.skipped,Bool.or_eq_false_iff,beq_eq_false_iff_ne]
        exact ⟨⟨⟨named.1,named.2⟩,down⟩,by simpa using whole⟩

theorem components_plain (plain : Plain parts) (components : List Text) (whole : ∀ piece ∈ components, '/' ∉ piece) :
    Plain (components.foldl VirtualFileSystem.pushComponent parts) := by
  induction components generalizing parts with
  | nil => exact plain
  | cons component rest ih =>
    rw [List.forall_mem_cons] at whole
    exact ih (pushComponent_plain plain component whole.1) whole.2

theorem home_plain : Plain ["root".toList] := by
  intro part member
  rw [List.mem_singleton.mp member]
  decide

theorem resolve_plain (vfs : VirtualFileSystem) (plain : Plain vfs.currentPath) (path : Text) :
    Plain (vfs.resolve path) := by
  unfold VirtualFileSystem.resolve
  dsimp only
  split
  · exact plain
  · split
    · exact components_plain (by intro part member; cases member) _ (fun piece member => Text.split_free member)
    · split
      · split
        · exact home_plain
        · exact components_plain home_plain _ (fun piece member => Text.split_free member)
      · exact components_plain plain _ (fun piece member => Text.split_free member)

theorem diskPath_plain (plain : Plain parts) (base : Path) :
    VirtualFileSystem.resolveDiskPathBase base parts = base ++ parts := by
  have all : parts.filter (fun part => !VirtualFileSystem.skipped part) = parts := by
    apply List.filter_eq_self.mpr
    intro part member
    simp [plain part member]
  rw [VirtualFileSystem.resolveDiskPathBase,all]

-- An assertion about the host that survives every operation at or below a root.
def Keeps (fs : HostFs σ) (root : Path) (keep : σ → Prop) : Prop :=
  ∀ host op, root <+: op.target → keep host → keep (fs.apply host op)

def Survives (fs : HostFs σ) (root : Path) (keep : σ → Prop) : Prop :=
  ∀ host op, Confined root op → keep host → keep (fs.apply host op)

theorem Keeps.survives (keeps : Keeps fs root keep) : Survives fs root keep :=
  fun host op confined => keeps host op confined.inside

-- A session whose writable layer, if it has one, is that root.
structure Held (root : Path) (keep : σ → Prop) (state : VfsState σ) : Prop where
  kept : keep state.host
  plain : Plain state.vfs.currentPath
  rooted : ∀ base, state.vfs.mountRoot = some base → base = root

section Commands
variable {σ : Type} {fs : HostFs σ} {root : Path} {keep : σ → Prop} {state : VfsState σ}

theorem Held.apply (held : Held root keep state) (keeps : Survives fs root keep) (op : DiskOp)
    (confined : Confined root op) : Held root keep (state.apply fs op) :=
  ⟨keeps _ _ confined held.kept,held.plain,held.rooted⟩

theorem Held.inMemory (held : Held root keep state) (update : Children → Children) :
    Held root keep (state.inMemory update) :=
  ⟨held.kept,held.plain,held.rooted⟩

theorem Held.setParent (held : Held root keep state) (parts : Path) (changed : Children) :
    Held root keep (state.setParent parts changed) :=
  held.inMemory _

theorem Held.inside (held : Held root keep state) (found : state.vfs.resolveUpperPath (state.vfs.resolve target) = some upper)
    (some_ : state.vfs.resolve target ≠ []) : Below root upper ∧ root <+: upper.dropLast := by
  obtain ⟨base,mounted,rfl⟩ := Option.map_eq_some_iff.mp found
  cases held.rooted base mounted
  have plain := resolve_plain state.vfs held.plain target
  rw [diskPath_plain plain]
  generalize state.vfs.resolve target = parts at some_
  refine ⟨⟨List.prefix_append _ _,by simp [some_]⟩,?_⟩
  rw [List.dropLast_append_of_ne_nil some_]
  exact List.prefix_append _ _

theorem Held.createParents (held : Held root keep state) (keeps : Survives fs root keep)
    (inside : root <+: upper.dropLast) : Held root keep (state.createParents fs upper) := by
  unfold VfsState.createParents
  split
  · exact held
  · exact held.apply keeps _ (Or.inr ⟨_,rfl,inside⟩)

theorem mkdirMemory_held (held : Held root keep state) (parents : Bool) (target : Text) (parts : Path) (output : Text) :
    Held root keep (VfsState.mkdirMemory parents target parts output state).2 := by
  unfold VfsState.mkdirMemory
  split
  · exact held.inMemory (fun root => root.makeDirs parts)
  · split
    · split
      · exact held
      · exact held.setParent parts _
    · exact held

theorem mkdirTarget_held (keeps : Survives fs root keep) (parents : Bool) (current : Text × VfsState σ)
    (held : Held root keep current.2) (target : Text) : Held root keep (VfsState.mkdirTarget fs parents current target).2 := by
  obtain ⟨output,state⟩ := current
  unfold VfsState.mkdirTarget
  dsimp only at held ⊢
  split
  · exact held
  · rename_i some_
    split
    · exact mkdirMemory_held held _ _ _ _
    · rename_i upper found
      obtain ⟨below,above⟩ := held.inside found some_
      split
      · exact mkdirMemory_held (held.apply keeps (.createDirAll upper) (Or.inl below)) _ _ _ _
      · split
        · exact held
        · split
          · exact mkdirMemory_held held _ _ _ _
          · exact mkdirMemory_held ((held.createParents keeps above).apply keeps (.createDir upper) (Or.inl below)) _ _ _ _

theorem onUpper_held (keeps : Survives fs root keep) (held : Held root keep state) (some_ : state.vfs.resolve target ≠ [])
    (op : Path → DiskOp) (at_ : ∀ upper, (op upper).target = upper) :
    Held root keep (state.onUpper (state.vfs.resolve target)
      (fun upper => (state.createParents fs upper).apply fs (op upper))) := by
  unfold VfsState.onUpper
  split
  · exact held
  · rename_i upper found
    obtain ⟨below,above⟩ := held.inside found some_
    apply (held.createParents keeps above).apply keeps
    rw [Confined,at_ upper]
    exact Or.inl below

theorem touchTarget_held (keeps : Survives fs root keep) (held : Held root keep state) (target : Text) :
    Held root keep (VfsState.touchTarget fs state target) := by
  unfold VfsState.touchTarget
  dsimp only
  split
  · exact held
  · rename_i some_
    have written := onUpper_held keeps held some_ .openCreate (fun _ => rfl)
    split
    · split
      · exact written
      · exact written.setParent _ _
    · exact written

theorem rmMemory_held (held : Held root keep state) (recursive force : Bool) (target : Text) (parts : Path) (output : Text) :
    Held root keep (VfsState.rmMemory recursive force target parts output state).2 := by
  unfold VfsState.rmMemory
  split
  · exact held
  · split
    · exact held
    · exact held.setParent parts _
    · exact held

theorem rmTarget_held (keeps : Survives fs root keep) (recursive force : Bool) (current : Text × VfsState σ)
    (held : Held root keep current.2) (target : Text) :
    Held root keep (VfsState.rmTarget fs recursive force current target).2 := by
  obtain ⟨output,state⟩ := current
  unfold VfsState.rmTarget
  dsimp only at held ⊢
  split
  · exact held
  · rename_i some_
    split
    · exact rmMemory_held held _ _ _ _ _
    · rename_i upper found
      obtain ⟨below,_⟩ := held.inside found some_
      split
      · exact held
      · rename_i removed disk
        refine rmMemory_held ?_ _ _ _ _ _
        unfold VfsState.rmDisk at disk
        split at disk
        · split at disk
          · cases disk; exact held.apply keeps (.removeDirAll upper) (Or.inl below)
          · split at disk
            · cases disk; exact held
            · cases disk
        · cases disk; exact held.apply keeps (.removeFile upper) (Or.inl below)
        · cases disk; exact held

theorem writeFile_held (keeps : Survives fs root keep) (held : Held root keep state) (target content : Text) (append : Bool) :
    Held root keep (VfsState.writeFile fs state target content append).2 := by
  unfold VfsState.writeFile
  dsimp only
  split
  · exact held
  · rename_i some_
    have written := onUpper_held keeps held some_
      (fun upper => if append then .append upper (encode content) else .write upper (encode content))
      (by intro upper; cases append <;> rfl)
    split
    · exact written
    · exact written.setParent _ _

theorem cd_held (held : Held root keep state) (view : View) (arg : Text) :
    Held root keep {state with vfs := (state.vfs.cd view arg).2} := by
  have entered : Plain (if arg.trim = [] then ["root".toList] else state.vfs.resolve arg.trim) := by
    split
    · exact home_plain
    · exact resolve_plain state.vfs held.plain _
  unfold VirtualFileSystem.cd
  dsimp only
  generalize (if arg.trim = [] then ["root".toList] else state.vfs.resolve arg.trim) = parts at entered ⊢
  have moved : Held root keep {state with vfs := {state.vfs with currentPath := parts}} :=
    ⟨held.kept,entered,held.rooted⟩
  split
  · exact moved
  · split
    · exact moved
    · exact held
    · split
      · exact moved
      · exact held
      · split
        · exact moved
        · exact held
        · exact held

theorem targets_held {step : α → Text → α} (state : α → VfsState σ) (targets : List Text) (start : α)
    (held : Held root keep (state start))
    (one : ∀ current target, Held root keep (state current) → Held root keep (state (step current target))) :
    Held root keep (state (targets.foldl step start)) := by
  induction targets generalizing start with
  | nil => exact held
  | cons target rest ih => exact ih _ (one start target held)

-- Whatever a session types, it works at or below its root.
theorem run_survives (keeps : Survives fs root keep) (held : Held root keep state) (command : VfsCommand) :
    Held root keep (state.run fs command).2 := by
  cases command with
  | pwd => exact held
  | cd arg => exact cd_held held _ arg
  | ls args => exact held
  | cat args => exact held
  | mkdir args =>
    simp only [VfsState.run,VfsState.mkdir]
    split
    · exact held
    · exact targets_held Prod.snd _ _ held (fun current target held => mkdirTarget_held keeps _ current held target)
  | touch args =>
    simp only [VfsState.run,VfsState.touch]
    split
    · exact held
    · exact targets_held id _ _ held (fun _ target held => touchTarget_held keeps held target)
  | rm args =>
    simp only [VfsState.run,VfsState.rm]
    split
    · exact held
    · exact targets_held Prod.snd _ _ held (fun current target held => rmTarget_held keeps _ _ current held target)
  | writeFile target content append => exact writeFile_held keeps held target content append

theorem run_held (keeps : Keeps fs root keep) (held : Held root keep state) (command : VfsCommand) :
    Held root keep (state.run fs command).2 := run_survives keeps.survives held command

def runs (fs : HostFs σ) (commands : List VfsCommand) (state : VfsState σ) : VfsState σ :=
  commands.foldl (fun current command => (current.run fs command).2) state

theorem runs_survives (keeps : Survives fs root keep) (held : Held root keep state) (commands : List VfsCommand) :
    Held root keep (runs fs commands state) := by
  induction commands generalizing state with
  | nil => exact held
  | cons command rest ih => exact ih (run_survives keeps held command)

end Commands

-- Every operation asked of the disk names a place below the root.
theorem traced_survives (fs : HostFs σ) (root : Path) :
    Survives (traced fs) root (fun host => ∀ op ∈ host.2, Confined root op) := by
  intro host op confined kept asked member
  rcases List.mem_append.mp member with old | new
  · exact kept asked old
  · rw [List.mem_singleton.mp new]
    exact confined

section History
variable {σ : Type} (fs : HostFs σ) (mountRoot lowerRoot : Option Path) (host : σ) (commands : List VfsCommand)

def history : VfsState (σ × List DiskOp) :=
  runs (traced fs) commands ⟨VirtualFileSystem.withRoots mountRoot lowerRoot,(host,[])⟩

-- Without a writable layer the disk is asked for nothing.
theorem history_held (root : Path) (rooted : ∀ base, mountRoot = some base → base = root) :
    Held root (fun host => ∀ op ∈ host.2, Confined root op) (history fs mountRoot lowerRoot host commands) := by
  refine runs_survives (traced_survives fs root) ⟨?_,home_plain,rooted⟩ commands
  intro op member
  cases member

theorem history_unmounted : (history fs none lowerRoot host commands).host.2 = [] := by
  have keeps : ∀ root, ∀ op ∈ (history fs none lowerRoot host commands).host.2, Confined root op :=
    fun root => (history_held fs none lowerRoot host commands root (fun _ none => by cases none)).kept
  cases ops : (history fs none lowerRoot host commands).host.2 with
  | nil => rfl
  | cons op rest =>
    rw [ops] at keeps
    have short := (keeps (op.target ++ [[]]) op List.mem_cons_self).inside.length_le
    rw [List.length_append,List.length_singleton] at short
    omega

end History

theorem paths_confined {σ : Type} (fs : HostFs σ) (mountRoot lowerRoot : Option Path) (host : σ) (commands : List VfsCommand) :
    Plain (history fs mountRoot lowerRoot host commands).vfs.currentPath ∧
    (∀ path, Plain ((history fs mountRoot lowerRoot host commands).vfs.resolve path)) ∧
    (∀ base path, VirtualFileSystem.resolveDiskPathBase base ((history fs mountRoot lowerRoot host commands).vfs.resolve path) =
      base ++ (history fs mountRoot lowerRoot host commands).vfs.resolve path) ∧
    (∀ op ∈ (history fs mountRoot lowerRoot host commands).host.2, ∃ base, mountRoot = some base ∧ Confined base op) ∧
    ∀ base disk path, mountRoot = some base → InPlace base disk → ¬ Below base path →
      entry ((history fs mountRoot lowerRoot host commands).host.2.foldl FileTree.apply disk) path = entry disk path := by
  obtain ⟨root,rooted⟩ : ∃ root, ∀ base, mountRoot = some base → base = root :=
    ⟨mountRoot.getD [],fun base same => by rw [same]; rfl⟩
  have held := history_held fs mountRoot lowerRoot host commands root rooted
  refine ⟨held.plain,resolve_plain _ held.plain,?_,?_,?_⟩
  · exact fun base path => diskPath_plain (resolve_plain _ held.plain path) base
  · intro op member
    cases mounted : mountRoot with
    | none =>
      rw [mounted,history_unmounted] at member
      cases member
    | some base => exact ⟨base,rfl,rooted base mounted ▸ held.kept op member⟩
  · intro base disk path mounted inPlace outside
    cases rooted base mounted
    exact confined_all inPlace _ held.kept outside

end AegisHoneypot.Vfs
