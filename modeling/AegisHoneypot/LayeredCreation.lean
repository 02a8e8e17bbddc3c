import AegisHoneypot.MergedView
import AegisHoneypot.VfsNesting

-- What `touch` and `mkdir` add to the layers of a session.
namespace AegisHoneypot.LayeredCreation
open FileTree Utf8Text VfsNode Vfs VfsTree VfsDepth VfsNesting MergedView

-- One target made with its missing parents on the writable layer; the tree gains
-- nothing but missing directories on the way to it and the target itself.
structure Creates (new : Entry) (parts : Path) (before after : VfsState Disk) : Prop where
  layered : Layered after
  same : SameRoots before.vfs after.vfs
  idle : before.vfs.mountRoot = none ∨ parts = [] → after.host = before.host
  made : ∀ base, before.vfs.mountRoot = some base → parts ≠ [] →
    ∀ path, entry after.host path = grown before.host (base ++ parts) new path
  tree : ∀ path, lookAt after.vfs.root path = lookAt before.vfs.root path ∨
    (lookAt before.vfs.root path = none ∧ path <+: parts)

theorem Layered.sameRoots (layered : Layered before) (same : SameRoots before.vfs after.vfs) (shaped : Shaped after.host) :
    Layered after := by
  refine ⟨shaped,?_⟩
  rw [same.currentPath]
  exact layered.placed

theorem Creates.refl (layered : Layered state) (new : Entry) : Creates new [] state state :=
  ⟨layered,SameRoots.refl _,fun _ => rfl,fun _ _ named => absurd rfl named,fun _ => Or.inl rfl⟩

-- A new name with nothing below it.
theorem insertLeaf_tree (state : VfsState σ) (named : parts ≠ []) (found : state.parentDir parts = some children)
    (free : children.get (VfsState.baseName parts) = none) (leaf : ∀ part rest, below node (part :: rest) = none) (path : Path) :
    lookAt (state.setParent parts (children.insert (VfsState.baseName parts) node)).vfs.root path = lookAt state.vfs.root path ∨
      (lookAt state.vfs.root path = none ∧ path <+: parts) := by
  have missing : lookAt state.vfs.root parts = none := by
    rw [lookAt,getNodeSafe_parent state.vfs.root named,show state.vfs.root.getDir parts.dropLast = some children from found,
      Option.bind_some,free]
    rfl
  rw [insertLeaf_lookAt state named found leaf]
  by_cases inside : parts <+: path
  · by_cases same : path = parts
    · subst same
      exact Or.inr ⟨missing,List.prefix_refl _⟩
    · left
      rw [if_pos inside,if_neg same,lookAt_below (by simp [missing]) inside same]
  · rw [if_neg inside]
    exact Or.inl rfl

-- The disk half of one target.
structure Written (new : Entry) (parts : Path) (before after : VfsState Disk) : Prop where
  vfs : after.vfs = before.vfs
  shaped : Shaped after.host
  idle : before.vfs.mountRoot = none → after.host = before.host
  made : ∀ base, before.vfs.mountRoot = some base → ∀ path, entry after.host path = grown before.host (base ++ parts) new path

theorem Written.creates (written : Written new parts before middle) (layered : Layered before) (named : parts ≠ [])
    (host : after.host = middle.host) (same : SameRoots middle.vfs after.vfs)
    (tree : ∀ path, lookAt after.vfs.root path = lookAt middle.vfs.root path ∨
      (lookAt middle.vfs.root path = none ∧ path <+: parts)) : Creates new parts before after := by
  rw [written.vfs] at same tree
  refine ⟨Layered.sameRoots layered same (host ▸ written.shaped),same,?_,?_,tree⟩
  · rintro (unmounted | root)
    · exact host.trans (written.idle unmounted)
    · exact absurd root named
  · intro base mounted _ path
    rw [host]
    exact written.made base mounted path

section Steps
variable {state : VfsState Disk} {parts : Path}

theorem written_unmounted (layered : Layered state) (unmounted : state.vfs.mountRoot = none) (new : Entry) :
    Written new parts state state := by
  refine ⟨rfl,layered.shaped,fun _ => rfl,?_⟩
  intro base mounted
  rw [unmounted] at mounted
  cases mounted

theorem written_mounted (layered : Layered state) (mounted : state.vfs.mountRoot = some base) (ops : List DiskOp)
    (made : ∀ path, entry (ops.foldl FileTree.apply state.host) path = grown state.host (base ++ parts) new path) :
    Written new parts state {state with host := ops.foldl FileTree.apply state.host} := by
  refine ⟨rfl,built_shaped layered.shaped ops,?_,?_⟩
  · intro unmounted
    rw [mounted] at unmounted
    cases unmounted
  · intro other given
    rw [mounted] at given
    cases given
    exact made

theorem onUpper_written (layered : Layered state) (target : Text) (named : state.vfs.resolve target ≠ []) :
    Written (.file []) (state.vfs.resolve target) state (state.onUpper (state.vfs.resolve target)
      (fun upper => (state.createParents plain upper).apply plain (.openCreate upper))) := by
  unfold VfsState.onUpper
  cases mounted : state.vfs.mountRoot with
  | none =>
    rw [VirtualFileSystem.resolveUpperPath,mounted]
    exact written_unmounted layered mounted _
  | some base =>
    have below : base ++ state.vfs.resolve target ≠ [] := by simp [named]
    rw [layered.upperPath mounted target]
    dsimp only
    rw [VfsState.createParents,if_neg below]
    exact written_mounted layered mounted [.createDirAll (base ++ state.vfs.resolve target).dropLast,.openCreate (base ++ state.vfs.resolve target)]
      (openCreate_entry layered.shaped below)

theorem touchTarget_creates (layered : Layered state) (target : Text) :
    Creates (.file []) (state.vfs.resolve target) state (VfsState.touchTarget plain state target) := by
  unfold VfsState.touchTarget
  dsimp only
  by_cases root : state.vfs.resolve target = []
  · rw [if_pos root,root]
    exact Creates.refl layered _
  · rw [if_neg root]
    have written := onUpper_written layered target root
    generalize state.onUpper (state.vfs.resolve target) _ = middle at written ⊢
    generalize state.vfs.resolve target = parts at root written ⊢
    cases found : middle.parentDir parts with
    | none => exact written.creates layered root rfl (SameRoots.refl _) (fun _ => Or.inl rfl)
    | some children =>
      dsimp only
      cases free : children.get (VfsState.baseName parts) with
      | some node => exact written.creates layered root rfl (SameRoots.refl _) (fun _ => Or.inl rfl)
      | none =>
        exact written.creates layered root rfl (setParent_roots _ _ _)
          (insertLeaf_tree middle root found free (fun _ _ => rfl))

theorem mkdirMemory_creates (layered : Layered state) (written : Written .dir parts state middle) (named : parts ≠ [])
    (parents : Bool) (target output : Text) :
    Creates .dir parts state (VfsState.mkdirMemory parents target parts output middle).2 := by
  unfold VfsState.mkdirMemory
  cases parents with
  | true => exact written.creates layered named rfl ⟨rfl,rfl,rfl⟩ (lookAt_makeDirs _ parts)
  | false =>
    cases found : middle.parentDir parts with
    | none => exact written.creates layered named rfl (SameRoots.refl _) (fun _ => Or.inl rfl)
    | some children =>
      dsimp only
      cases free : children.get (VfsState.baseName parts) with
      | some node => exact written.creates layered named rfl (SameRoots.refl _) (fun _ => Or.inl rfl)
      | none =>
        exact written.creates layered named rfl (setParent_roots _ _ _)
          (insertLeaf_tree middle named found free (fun _ _ => rfl))

theorem mkdirTarget_creates (layered : Layered state) (parents : Bool) (output target : Text) :
    Creates .dir (state.vfs.resolve target) state (VfsState.mkdirTarget plain parents (output,state) target).2 := by
  unfold VfsState.mkdirTarget
  dsimp only
  by_cases root : state.vfs.resolve target = []
  · rw [if_pos root,root]
    exact Creates.refl layered _
  · rw [if_neg root]
    cases mounted : state.vfs.mountRoot with
    | none =>
      have nowhere : state.vfs.resolveUpperPath (state.vfs.resolve target) = none := by
        rw [VirtualFileSystem.resolveUpperPath,mounted]
        rfl
      rw [nowhere]
      exact mkdirMemory_creates layered (written_unmounted layered mounted _) root parents target output
    | some base =>
      have below : base ++ state.vfs.resolve target ≠ [] := by simp [root]
      rw [layered.upperPath mounted target]
      generalize state.vfs.resolve target = parts at root below ⊢
      dsimp only
      cases parents with
      | true =>
        exact mkdirMemory_creates layered (written_mounted layered mounted [.createDirAll (base ++ parts)]
          (makeDirs_entry state.host _)) root true target output
      | false =>
        cases held : entry state.host (base ++ parts) with
        | some present =>
          have there : ((plain.view state.host).entry (base ++ parts)).isSome = true := by
            change (entry state.host (base ++ parts)).isSome = true
            simp [held]
          rw [if_neg (by simp),if_pos there]
          have unchanged : Written .dir parts state state := written_mounted layered mounted []
            (fun path => (grown_present layered.shaped there .dir path).symm)
          exact unchanged.creates layered root rfl (SameRoots.refl _) (fun _ => Or.inl rfl)
        | none =>
          have free : ¬ ((plain.view state.host).entry (base ++ parts)).isSome = true := by
            change ¬ (entry state.host (base ++ parts)).isSome = true
            simp [held]
          rw [if_neg (by simp),if_neg free,if_neg below,VfsState.createParents,if_neg below]
          exact mkdirMemory_creates layered (written_mounted layered mounted
            [.createDirAll (base ++ parts).dropLast,.createDir (base ++ parts)]
            (makeDir_entry layered.shaped below held)) root false target output

end Steps

-- The disk entries that one target brings into being: all that is missing on the
-- way to it, unless a file stands there.
def Makes (new : Entry) (parts : Path) (state : VfsState Disk) (place : Path) (made : Entry) : Prop :=
  ∃ base, state.vfs.mountRoot = some base ∧ parts ≠ [] ∧ Passable state.host (base ++ parts) ∧ place <+: base ++ parts ∧
    entry state.host place = none ∧ made = if place = base ++ parts then new else .dir

section Step
variable {new : Entry} {parts : Path} {before after : VfsState Disk}

theorem Creates.entry_exact (creates : Creates new parts before after) (place : Path) (made : Entry) :
    entry after.host place = some made ↔ entry before.host place = some made ∨ Makes new parts before place made := by
  by_cases idle : before.vfs.mountRoot = none ∨ parts = []
  · rw [creates.idle idle]
    refine ⟨Or.inl,fun given => given.elim id ?_⟩
    rintro ⟨base,mounted,named,_⟩
    rcases idle with unmounted | root
    · cases unmounted.symm.trans mounted
    · exact absurd root named
  · obtain ⟨mounted,named⟩ := not_or.mp idle
    obtain ⟨base,mounted⟩ := Option.ne_none_iff_exists'.mp mounted
    rw [creates.made base mounted named,grown]
    split
    · rename_i fresh
      constructor
      · intro same
        exact Or.inr ⟨base,mounted,named,fresh.1,fresh.2.1,fresh.2.2,(Option.some.inj same).symm⟩
      · rintro (old | ⟨other,here,_,_,_,_,rfl⟩)
        · cases fresh.2.2.symm.trans old
        · cases mounted.symm.trans here
          rfl
    · rename_i blocked
      refine ⟨Or.inl,fun given => given.elim id ?_⟩
      rintro ⟨other,here,_,passable,inside,free,_⟩
      cases mounted.symm.trans here
      exact absurd ⟨passable,inside,free⟩ blocked

theorem Creates.tree_kept (creates : Creates new parts before after) (held : memory before.vfs path = some sight) :
    memory after.vfs path = some sight := by
  unfold memory at held ⊢
  rcases creates.tree path with same | ⟨free,_⟩
  · rw [same]
    exact held
  · rw [free] at held
    cases held

theorem Creates.tree_outside (creates : Creates new parts before after) (outside : ¬ path <+: parts) :
    memory after.vfs path = memory before.vfs path := by
  unfold memory
  rcases creates.tree path with same | ⟨_,inside⟩
  · rw [same]
  · exact absurd inside outside

end Step

structure Undisturbed (targets : List Path) (before after : VfsState Disk) : Prop where
  kept : ∀ path sight, Plain path → mergedAt before path = some sight → mergedAt after path = some sight
  confined : ∀ path, Plain path → mergedAt after path ≠ mergedAt before path → ∃ parts ∈ targets, path <+: parts

-- One operand after another, each in the state the last has left.
section Operands
variable {new : Entry} {step : VfsState Disk → Text → VfsState Disk} {state : VfsState Disk}

def Creator (new : Entry) (step : VfsState Disk → Text → VfsState Disk) : Prop :=
  ∀ state target, Layered state → Creates new (state.vfs.resolve target) state (step state target)

-- What a whole command brings into being on the disk.
def Brings (new : Entry) (step : VfsState Disk → Text → VfsState Disk) (place : Path) (made : Entry) :
    List Text → VfsState Disk → Prop
  | [],_ => False
  | target :: rest,state => Makes new (state.vfs.resolve target) state place made ∨ Brings new step place made rest (step state target)

theorem operands_layered (creator : Creator new step) (targets : List Text) (layered : Layered state) :
    Layered (targets.foldl step state) ∧ SameRoots state.vfs (targets.foldl step state).vfs := by
  induction targets generalizing state with
  | nil => exact ⟨layered,SameRoots.refl _⟩
  | cons target rest ih =>
    have creates := creator state target layered
    obtain ⟨last,same⟩ := ih creates.layered
    exact ⟨last,creates.same.trans same⟩

theorem brings_exact (creator : Creator new step) (targets : List Text) (layered : Layered state) (place : Path) (made : Entry) :
    entry (targets.foldl step state).host place = some made ↔
      entry state.host place = some made ∨ Brings new step place made targets state := by
  induction targets generalizing state with
  | nil => exact (or_iff_left id).symm
  | cons target rest ih =>
    have creates := creator state target layered
    rw [List.foldl_cons,ih creates.layered,creates.entry_exact,or_assoc]
    rfl

-- It brings only what was not there.
theorem brings_new (creator : Creator new step) (targets : List Text) (layered : Layered state)
    (brings : Brings new step place made targets state) : entry state.host place = none := by
  induction targets generalizing state with
  | nil => exact brings.elim
  | cons target rest ih =>
    rcases brings with ⟨_,_,_,_,_,free,_⟩ | later
    · exact free
    · have creates := creator state target layered
      have free := ih creates.layered later
      cases held : entry state.host place with
      | none => rfl
      | some present =>
        rw [(creates.entry_exact place present).mpr (Or.inl held)] at free
        cases free

theorem operands_resolve (creator : Creator new step) (layered : Layered state) (target : Text) (rest : List Text) :
    rest.map (step state target).vfs.resolve = rest.map state.vfs.resolve :=
  List.map_congr_left (fun other _ => (creator state target layered).same.resolve other)

-- And only on the way to its operands.
theorem brings_inside (creator : Creator new step) (targets : List Text) (layered : Layered state)
    (mounted : state.vfs.mountRoot = some base) (brings : Brings new step (base ++ path) made targets state) :
    ∃ parts ∈ targets.map state.vfs.resolve, path <+: parts := by
  induction targets generalizing state with
  | nil => exact brings.elim
  | cons target rest ih =>
    rcases brings with ⟨other,here,_,_,inside,_⟩ | later
    · cases mounted.symm.trans here
      exact ⟨_,List.mem_cons_self,(List.prefix_append_right_inj base).mp inside⟩
    · have creates := creator state target layered
      obtain ⟨parts,member,inside⟩ := ih creates.layered (creates.same.mountRoot.trans mounted) later
      rw [operands_resolve creator layered] at member
      exact ⟨parts,List.mem_cons_of_mem _ member,inside⟩

theorem tree_operands (creator : Creator new step) (targets : List Text) (layered : Layered state) (path : Path) :
    (∀ sight, memory state.vfs path = some sight → memory (targets.foldl step state).vfs path = some sight) ∧
      ((∀ parts ∈ targets.map state.vfs.resolve, ¬ path <+: parts) →
        memory (targets.foldl step state).vfs path = memory state.vfs path) := by
  induction targets generalizing state with
  | nil => exact ⟨fun _ held => held,fun _ => rfl⟩
  | cons target rest ih =>
    have creates := creator state target layered
    obtain ⟨kept,outside⟩ := ih creates.layered
    rw [operands_resolve creator layered] at outside
    refine ⟨fun sight held => kept sight (creates.tree_kept held),fun apart => ?_⟩
    rw [List.map_cons,List.forall_mem_cons] at apart
    exact (outside apart.2).trans (creates.tree_outside apart.1)

-- What a layer shows when a command is through.
theorem layer_exact {start final : VfsState Disk} {brings : Path → Entry → Prop}
    (disk : ∀ place made, entry final.host place = some made ↔ entry start.host place = some made ∨ brings place made)
    (place : Option Path) (made : Entry) :
    VirtualFileSystem.layerEntry (plain.view final.host) place = some made ↔
      VirtualFileSystem.layerEntry (plain.view start.host) place = some made ∨ ∃ here, place = some here ∧ brings here made := by
  cases place with
  | none => simp [VirtualFileSystem.layerEntry]
  | some here =>
    rw [show (∃ other, some here = some other ∧ brings other made) ↔ brings here made by simp]
    exact disk here made

-- The layers of the last state, seen from the first.
structure Outcome (brings : Path → Entry → Prop) (targets : List Path) (start final : VfsState Disk) : Prop where
  upper : ∀ path made, upperAt final path = some made ↔
    upperAt start path = some made ∨ ∃ place, start.vfs.resolveUpperPath path = some place ∧ brings place made
  lower : ∀ path made, lowerAt final path = some made ↔
    lowerAt start path = some made ∨ ∃ place, start.vfs.resolveLowerPath path = some place ∧ brings place made
  fresh : ∀ place made, brings place made → entry start.host place = none
  inside : ∀ path place made, Plain path → start.vfs.resolveUpperPath path = some place → brings place made →
    ∃ parts ∈ targets, path <+: parts
  tree : ∀ path sight, memory start.vfs path = some sight → memory final.vfs path = some sight
  outside : ∀ path, (∀ parts ∈ targets, ¬ path <+: parts) → memory final.vfs path = memory start.vfs path

theorem operands_outcome (creator : Creator new step) (targets : List Text) (layered : Layered state) :
    Outcome (fun place made => Brings new step place made targets state) (targets.map state.vfs.resolve) state
      (targets.foldl step state) := by
  obtain ⟨_,same⟩ := operands_layered creator targets layered
  have disk := fun place made => brings_exact creator targets layered place made
  have tree := tree_operands creator targets layered
  refine ⟨?_,?_,fun _ _ => brings_new creator targets layered,?_,fun path => (tree path).1,fun path => (tree path).2⟩
  · intro path made
    rw [upperAt,MergedView.upper,same.upperPath]
    exact layer_exact disk _ made
  · intro path made
    rw [lowerAt,MergedView.lower,same.lowerPath]
    exact layer_exact disk _ made
  · intro path place made plainPath there brings
    cases mounted : state.vfs.mountRoot with
    | none =>
      rw [VirtualFileSystem.resolveUpperPath,mounted] at there
      cases there
    | some base =>
      rw [upperPath_plain mounted plainPath] at there
      cases there
      exact brings_inside creator targets layered mounted brings

end Operands

-- When nothing that exists is disturbed. What the writable layer is given hides
-- nothing but its like. Where the golden image shows an entry that is new at
-- another path, because one of the two directories lies in the other, that path
-- has an entry of the writable layer, or its like in the tree, or nothing and is on
-- the way to an operand.
structure Harmless (brings : Path → Entry → Prop) (targets : List Path) (state : VfsState Disk) : Prop where
  above : ∀ path place made, Plain path → path ≠ [] → state.vfs.resolveUpperPath path = some place → brings place made →
    ∀ sight, beneathAt state path = some sight → sight = ofEntry made
  aside : ∀ path place made, Plain path → path ≠ [] → state.vfs.resolveLowerPath path = some place → brings place made →
    upperAt state path = none → (∀ other held, state.vfs.resolveUpperPath path = some other → ¬ brings other held) →
    memory state.vfs path = some (ofEntry made) ∨ (memory state.vfs path = none ∧ ∃ parts ∈ targets, path <+: parts)

section Outcome
variable {brings : Path → Entry → Prop} {targets : List Path} {start final : VfsState Disk} {path : Path}

theorem Outcome.upper_none (outcome : Outcome brings targets start final) (free : upperAt start path = none)
    (idle : ∀ place made, start.vfs.resolveUpperPath path = some place → ¬ brings place made) : upperAt final path = none := by
  cases held : upperAt final path with
  | none => rfl
  | some made =>
    rcases (outcome.upper path made).mp held with old | ⟨place,there,brought⟩
    · cases free.symm.trans old
    · exact absurd brought (idle place made there)

theorem Outcome.lower_kept (outcome : Outcome brings targets start final)
    (idle : ∀ place made, start.vfs.resolveLowerPath path = some place → ¬ brings place made) :
    lowerAt final path = lowerAt start path := by
  refine Option.ext fun made => (outcome.lower path made).trans ⟨fun given => given.elim id ?_,Or.inl⟩
  rintro ⟨place,there,brought⟩
  exact absurd brought (idle place made there)

theorem Outcome.upper_new (outcome : Outcome brings targets start final) (there : start.vfs.resolveUpperPath path = some place)
    (brought : brings place made) : upperAt start path = none ∧ upperAt final path = some made := by
  refine ⟨?_,(outcome.upper path made).mpr (Or.inr ⟨place,there,brought⟩)⟩
  rw [upperAt,MergedView.upper,there]
  exact outcome.fresh place made brought

theorem Outcome.lower_new (outcome : Outcome brings targets start final) (there : start.vfs.resolveLowerPath path = some place)
    (brought : brings place made) : lowerAt start path = none ∧ lowerAt final path = some made := by
  refine ⟨?_,(outcome.lower path made).mpr (Or.inr ⟨place,there,brought⟩)⟩
  rw [lowerAt,MergedView.lower,there]
  exact outcome.fresh place made brought

theorem beneath_lower (held : lowerAt state path = some present) : beneathAt state path = some (ofEntry present) := by
  unfold beneathAt beneath
  rw [show lower (plain.view state.host) state.vfs path = some present from held]
  rfl

theorem beneath_tree (free : lowerAt state path = none) : beneathAt state path = memory state.vfs path := by
  unfold beneathAt beneath
  rw [show lower (plain.view state.host) state.vfs path = none from free]
  rfl

theorem merged_beneath (named : path ≠ []) (free : upperAt state path = none) : mergedAt state path = beneathAt state path := by
  rw [mergedAt_named _ named,free]
  rfl

theorem harmless_kept (outcome : Outcome brings targets start final) (harmless : Harmless brings targets start)
    (plainPath : Plain path) (named : path ≠ []) (shown : mergedAt start path = some sight) : mergedAt final path = some sight := by
  cases held : upperAt start path with
  | some present =>
    have still := (outcome.upper path present).mpr (Or.inl held)
    rw [mergedAt_named _ named,held] at shown
    rw [mergedAt_named _ named,still]
    exact shown
  | none =>
    rw [merged_beneath named held] at shown
    by_cases brought : ∃ place made, start.vfs.resolveUpperPath path = some place ∧ brings place made
    · obtain ⟨place,made,there,brought⟩ := brought
      rw [mergedAt_named _ named,(outcome.upper_new there brought).2,harmless.above path place made plainPath named there brought sight shown]
      rfl
    · have idle : ∀ place made, start.vfs.resolveUpperPath path = some place → ¬ brings place made :=
        fun place made there given => brought ⟨place,made,there,given⟩
      rw [merged_beneath named (outcome.upper_none held idle)]
      cases image : lowerAt start path with
      | some present =>
        rw [beneath_lower image] at shown
        rw [beneath_lower ((outcome.lower path present).mpr (Or.inl image))]
        exact shown
      | none =>
        rw [beneath_tree image] at shown
        cases after : lowerAt final path with
        | none => rw [beneath_tree after,outcome.tree path sight shown]
        | some made =>
          rcases (outcome.lower path made).mp after with old | ⟨place,there,given⟩
          · cases image.symm.trans old
          · rcases harmless.aside path place made plainPath named there given held idle with like | ⟨empty,_⟩
            · rw [beneath_lower after,← like,shown]
            · cases empty.symm.trans shown

theorem harmless_confined (outcome : Outcome brings targets start final) (harmless : Harmless brings targets start)
    (plainPath : Plain path) (outside : ∀ parts ∈ targets, ¬ path <+: parts) (named : path ≠ []) :
    mergedAt final path = mergedAt start path := by
  have idle : ∀ place made, start.vfs.resolveUpperPath path = some place → ¬ brings place made := by
    intro place made there brought
    obtain ⟨parts,member,inside⟩ := outcome.inside path place made plainPath there brought
    exact outside parts member inside
  cases held : upperAt start path with
  | some present =>
    rw [mergedAt_named _ named,mergedAt_named _ named,held,(outcome.upper path present).mpr (Or.inl held)]
    rfl
  | none =>
    rw [merged_beneath named held,merged_beneath named (outcome.upper_none held idle)]
    by_cases brought : ∃ place made, start.vfs.resolveLowerPath path = some place ∧ brings place made
    · obtain ⟨place,made,there,brought⟩ := brought
      obtain ⟨free,after⟩ := outcome.lower_new there brought
      rcases harmless.aside path place made plainPath named there brought held idle with like | ⟨_,parts,member,inside⟩
      · rw [beneath_lower after,beneath_tree free,like]
      · exact absurd inside (outside parts member)
    · have same := outcome.lower_kept (fun place made there given => brought ⟨place,made,there,given⟩)
      cases image : lowerAt start path with
      | some present => rw [beneath_lower image,beneath_lower (same.trans image)]
      | none => rw [beneath_tree image,beneath_tree (same.trans image),outcome.outside path outside]

theorem undisturbed_harmless (outcome : Outcome brings targets start final) (undisturbed : Undisturbed targets start final) :
    Harmless brings targets start := by
  refine ⟨?_,?_⟩
  · intro path place made plainPath named there brought sight shown
    obtain ⟨free,after⟩ := outcome.upper_new there brought
    have still := undisturbed.kept path sight plainPath ((merged_beneath named free).trans shown)
    rw [mergedAt_named _ named,after] at still
    exact (Option.some.inj still).symm
  · intro path place made plainPath named there brought above idle
    obtain ⟨free,after⟩ := outcome.lower_new there brought
    have shown : mergedAt final path = some (ofEntry made) :=
      (merged_beneath named (outcome.upper_none above idle)).trans (beneath_lower after)
    have before : mergedAt start path = memory start.vfs path := (merged_beneath named above).trans (beneath_tree free)
    cases tree : memory start.vfs path with
    | some sight =>
      rw [undisturbed.kept path sight plainPath (before.trans tree)] at shown
      exact Or.inl shown
    | none =>
      refine Or.inr ⟨rfl,undisturbed.confined path plainPath ?_⟩
      rw [shown,before,tree]
      exact nofun

theorem outcome_exact (outcome : Outcome brings targets start final) :
    Undisturbed targets start final ↔ Harmless brings targets start := by
  refine ⟨undisturbed_harmless outcome,fun harmless => ⟨?_,?_⟩⟩
  · intro path sight plainPath shown
    by_cases root : path = []
    · subst root
      exact shown
    · exact harmless_kept outcome harmless plainPath root shown
  · intro path plainPath changed
    by_contra outside
    have root : path ≠ [] := by
      rintro rfl
      exact changed rfl
    exact changed (harmless_confined outcome harmless plainPath (fun parts member inside => outside ⟨parts,member,inside⟩) root)

end Outcome

def withParents (args : Text) : Bool := args.splitWhitespace.any (· == "-p".toList)

def mkdirStep (parents : Bool) (state : VfsState Disk) (target : Text) : VfsState Disk :=
  (VfsState.mkdirTarget plain parents ([],state) target).2

theorem touch_operands (state : VfsState Disk) (args : Text) :
    (VfsState.touch plain state args).2 = (VirtualFileSystem.operands args).foldl (VfsState.touchTarget plain) state := by
  unfold VfsState.touch
  dsimp only
  split
  · rename_i none
    rw [none]
    rfl
  · rfl

theorem mkdir_operands (state : VfsState Disk) (args : Text) :
    (VfsState.mkdir plain state args).2 = (VirtualFileSystem.operands args).foldl (mkdirStep (withParents args)) state := by
  have folded : ∀ (targets : List Text) (current : Text × VfsState Disk),
      (targets.foldl (VfsState.mkdirTarget plain (withParents args)) current).2 =
        targets.foldl (mkdirStep (withParents args)) current.2 := by
    intro targets
    induction targets with
    | nil => exact fun _ => rfl
    | cons target rest ih =>
      rintro ⟨output,state⟩
      rw [List.foldl_cons,List.foldl_cons,ih]
      exact congrArg (rest.foldl (mkdirStep (withParents args)))
        (mkdirTarget_after plain ⟨withParents args,state,target⟩ output)
  unfold VfsState.mkdir
  dsimp only
  split
  · rename_i none
    rw [none]
    rfl
  · exact folded _ ([],state)

-- What the operands of a command bring into being, and where they point.
def touches (state : VfsState Disk) (args : Text) (place : Path) (made : Entry) : Prop :=
  Brings (.file []) (VfsState.touchTarget plain) place made (VirtualFileSystem.operands args) state

def makes (state : VfsState Disk) (args : Text) (place : Path) (made : Entry) : Prop :=
  Brings .dir (mkdirStep (withParents args)) place made (VirtualFileSystem.operands args) state

def operandPaths (state : VfsState Disk) (args : Text) : List Path := (VirtualFileSystem.operands args).map state.vfs.resolve

theorem creation_frame (state : VfsState Disk) (args : Text) (layered : Layered state) :
    (Undisturbed (operandPaths state args) state (VfsState.touch plain state args).2 ↔
      Harmless (touches state args) (operandPaths state args) state) ∧
    (Undisturbed (operandPaths state args) state (VfsState.mkdir plain state args).2 ↔
      Harmless (makes state args) (operandPaths state args) state) := by
  rw [touch_operands,mkdir_operands]
  refine ⟨outcome_exact (operands_outcome ?_ _ layered),outcome_exact (operands_outcome ?_ _ layered)⟩
  · exact fun current target held => touchTarget_creates held target
  · exact fun current target held => mkdirTarget_creates held (withParents args) [] target

-- The roots of the sessions that the gateway makes: two places of which neither
-- lies in the other, or one.
def Aligned (vfs : VirtualFileSystem) : Prop :=
  ∀ base low, vfs.mountRoot = some base → vfs.lowerRoot = some low → low = base ∨ Apart base low

theorem brings_under (creator : Creator new step) (targets : List Text) (layered : Layered state)
    (brings : Brings new step place made targets state) : ∃ base parts, state.vfs.mountRoot = some base ∧ place <+: base ++ parts := by
  induction targets generalizing state with
  | nil => exact brings.elim
  | cons target rest ih =>
    rcases brings with ⟨base,mounted,_,_,inside,_⟩ | later
    · exact ⟨base,_,mounted,inside⟩
    · have creates := creator state target layered
      obtain ⟨base,parts,mounted,inside⟩ := ih creates.layered later
      exact ⟨base,parts,creates.same.mountRoot.symm.trans mounted,inside⟩

-- There only what is hidden counts.
theorem aligned_harmless (creator : Creator new step) (targets : List Text) (layered : Layered state) (aligned : Aligned state.vfs)
    (above : ∀ path place made, Plain path → path ≠ [] → state.vfs.resolveUpperPath path = some place →
      Brings new step place made targets state → ∀ sight, beneathAt state path = some sight → sight = ofEntry made) :
    Harmless (fun place made => Brings new step place made targets state) (targets.map state.vfs.resolve) state := by
  refine ⟨above,?_⟩
  intro path place made plainPath _ there brings _ idle
  obtain ⟨base,parts,mounted,inside⟩ := brings_under creator targets layered brings
  cases imaged : state.vfs.lowerRoot with
  | none =>
    rw [VirtualFileSystem.resolveLowerPath,imaged] at there
    cases there
  | some low =>
    rw [lowerPath_plain imaged plainPath] at there
    cases there
    rcases aligned base low mounted imaged with rfl | apart
    · exact absurd brings (idle _ made (upperPath_plain mounted plainPath))
    · exact absurd ((List.prefix_append low path).trans inside) (apart.below (List.prefix_append base parts)).1

theorem new_file_harmless :
    Undisturbed [["tmp".toList,"new".toList]] (unsandboxed []) (VfsState.touch plain (unsandboxed []) "/tmp/new".toList).2 := by
  have targets : VirtualFileSystem.operands "/tmp/new".toList = ["/tmp/new".toList] := by decide
  have layered := unsandboxed_layered []
  have harmless : Harmless (touches (unsandboxed []) "/tmp/new".toList) (operandPaths (unsandboxed []) "/tmp/new".toList) (unsandboxed []) := by
    refine aligned_harmless (fun current target held => touchTarget_creates held target) _ layered ?_ ?_
    · intro base low mounted imaged
      cases mounted
      cases imaged
      exact Or.inl rfl
    · intro path place made plainPath named there brings sight held
      rw [targets] at brings
      rcases brings with ⟨base,mounted,_,_,inside,_,rfl⟩ | none
      · rw [upperPath_plain mounted plainPath] at there
        cases there
        rw [List.prefix_append_right_inj] at inside
        have member := (List.mem_inits _ _).mpr inside
        have ways : (unsandboxed []).vfs.resolve "/tmp/new".toList = ["tmp".toList,"new".toList] := by decide
        rw [ways] at member
        simp only [List.inits,List.map_cons,List.map_nil,List.mem_cons,List.not_mem_nil,or_false] at member
        rcases member with rfl | rfl | rfl
        · exact absurd rfl named
        · have dir : beneathAt (unsandboxed []) ["tmp".toList] = some .dir := by decide
          rw [dir] at held
          cases held
          rw [if_neg (by rw [ways,List.append_cancel_left_eq]; decide)]
          rfl
        · have free : beneathAt (unsandboxed []) ["tmp".toList,"new".toList] = none := by decide
          rw [free] at held
          cases held
      · exact none.elim
  exact (creation_frame (unsandboxed []) "/tmp/new".toList layered).1.mpr harmless

theorem touched_file_emptied :
    Layered (sandbox []) ∧
    mergedAt (sandbox []) ["etc".toList,"hostname".toList] = some (.file (encode "ubuntu-server-01\n".toList)) ∧
    mergedAt (VfsState.touch plain (sandbox []) "/etc/hostname".toList).2 ["etc".toList,"hostname".toList] = some (.file []) ∧
    ¬ Undisturbed (operandPaths (sandbox []) "/etc/hostname".toList) (sandbox [])
      (VfsState.touch plain (sandbox []) "/etc/hostname".toList).2 := by
  have before : mergedAt (sandbox []) ["etc".toList,"hostname".toList] = some (.file (encode "ubuntu-server-01\n".toList)) := by
    decide
  have after : mergedAt (VfsState.touch plain (sandbox []) "/etc/hostname".toList).2 ["etc".toList,"hostname".toList] =
      some (.file []) := by decide
  refine ⟨sandbox_layered [],before,after,?_⟩
  intro undisturbed
  have kept := undisturbed.kept ["etc".toList,"hostname".toList] _ (by unfold Plain; decide) before
  rw [after] at kept
  exact absurd kept (by decide)

section Atomic
variable {state : VfsState Disk}

structure Atomic (state : VfsState Disk) (parts : Path) (answer : Text × VfsState Disk) : Prop where
  unchanged : answer.1 ≠ [] → answer.2 = state
  quiet : answer.1 = [] ↔ mergedAt state parts = none ∧ mergedAt state parts.dropLast = some .dir ∧
    mergedAt answer.2 parts = some .dir

-- The tree decides what is said after the writable layer has been changed.
def BothParents (state : VfsState Disk) (parts : Path) : Prop :=
  mergedAt state parts = none ∧ mergedAt state parts.dropLast = some .dir ∧ (state.parentDir parts).isSome

theorem mkdir_single (single : VirtualFileSystem.operands args = [target]) (flat : withParents args = false) :
    VfsState.mkdir plain state args = VfsState.mkdirTarget plain false ([],state) target := by
  unfold withParents at flat
  unfold VfsState.mkdir
  dsimp only
  rw [single,flat]
  rfl

theorem refused_atomic (spoken : text ≠ []) (present : mergedAt state parts ≠ none) : Atomic state parts (text,state) :=
  ⟨fun _ => rfl,fun silent => absurd silent spoken,fun given => absurd given.1 present⟩

-- Once the directory is on the disk an error comes too late.
theorem mkdirMemory_atomic {middle : VfsState Disk} (named : parts ≠ []) (vfs : middle.vfs = state.vfs)
    (free : upperAt state parts = none) (made : upperAt middle parts = some .dir) (target : Text) :
    Atomic state parts (VfsState.mkdirMemory false target parts [] middle) ↔ BothParents state parts := by
  have parents : middle.parentDir parts = state.parentDir parts := by rw [VfsState.parentDir,VfsState.parentDir,vfs]
  have late : ∀ text, text ≠ [] → ¬ Atomic state parts (text,middle) := by
    intro text spoken atomic
    have same : middle = state := atomic.unchanged spoken
    rw [same,free] at made
    cases made
  unfold VfsState.mkdirMemory
  cases found : middle.parentDir parts with
  | none =>
    refine iff_of_false (late _ (quoted_some _ _ _ _ (by decide))) ?_
    rintro ⟨_,_,parent⟩
    rw [← parents,found] at parent
    cases parent
  | some children =>
    dsimp only
    cases held : children.get (VfsState.baseName parts) with
    | some node =>
      refine iff_of_false (late _ (quoted_some _ _ _ _ (by decide))) ?_
      rintro ⟨missing,_,_⟩
      have none := ((mergedAt_none named).mp missing).2.2
      rw [memory_parent named (parents.symm.trans found),held] at none
      cases none
    | none =>
      have shown : mergedAt (middle.setParent parts (children.insert (VfsState.baseName parts) newDir)) parts = some .dir := by
        have above : upperAt (middle.setParent parts (children.insert (VfsState.baseName parts) newDir)) parts = some .dir := made
        rw [mergedAt_named _ named,above]
        rfl
      constructor
      · intro atomic
        obtain ⟨missing,parent,_⟩ := atomic.quiet.mp rfl
        exact ⟨missing,parent,by rw [← parents,found]; rfl⟩
      · rintro ⟨missing,parent,_⟩
        exact ⟨fun spoken => absurd rfl spoken,fun _ => ⟨missing,parent,shown⟩,fun _ => rfl⟩

theorem mkdir_atomic (state : VfsState Disk) (args target : Text) (single : VirtualFileSystem.operands args = [target])
    (flat : withParents args = false) (mounted : state.vfs.mountRoot.isSome)
    (works : ∀ place, state.vfs.resolveUpperPath (state.vfs.resolve target) = some place → Passable state.host place.dropLast) :
    Atomic state (state.vfs.resolve target) (VfsState.mkdir plain state args) ↔
      state.vfs.resolve target = [] ∨ (upperAt state (state.vfs.resolve target)).isSome ∨
        BothParents state (state.vfs.resolve target) := by
  rw [mkdir_single single flat]
  unfold VfsState.mkdirTarget
  dsimp only
  by_cases root : state.vfs.resolve target = []
  · rw [if_pos root]
    refine iff_of_true (refused_atomic (by decide) ?_) (Or.inl root)
    rw [root]
    intro missing
    cases missing
  · rw [if_neg root]
    obtain ⟨base,here⟩ := Option.isSome_iff_exists.mp mounted
    have place : state.vfs.resolveUpperPath (state.vfs.resolve target) =
        some (VirtualFileSystem.resolveDiskPathBase base (state.vfs.resolve target)) := by
      rw [VirtualFileSystem.resolveUpperPath,here]
      rfl
    have clear := works _ place
    generalize state.vfs.resolve target = parts at root place clear ⊢
    generalize VirtualFileSystem.resolveDiskPathBase base parts = upper at place clear
    have layer : ∀ other : VfsState Disk, other.vfs = state.vfs → upperAt other parts = entry other.host upper := by
      intro other vfs
      rw [upperAt,MergedView.upper,vfs,place]
      rfl
    rw [place]
    dsimp only
    rw [if_neg (by simp)]
    cases held : entry state.host upper with
    | some present =>
      have there : upperAt state parts = some present := (layer state rfl).trans held
      have known : ((plain.view state.host).entry upper).isSome = true := by
        change (entry state.host upper).isSome = true
        rw [held]
        rfl
      have shown : mergedAt state parts = some (ofEntry present) := merged_upper root there
      rw [if_pos known,there]
      refine iff_of_true (refused_atomic (quoted_some _ _ _ _ (by decide)) ?_) (Or.inr (Or.inl rfl))
      rw [shown]
      intro missing
      cases missing
    | none =>
      have free : upperAt state parts = none := (layer state rfl).trans held
      have named : upper ≠ [] := by
        rintro rfl
        cases held
      have unknown : ¬ ((plain.view state.host).entry upper).isSome = true := by
        change ¬ (entry state.host upper).isSome = true
        rw [held]
        simp
      have vfs : ((state.apply plain (.createDirAll upper.dropLast)).apply plain (.createDir upper)).vfs = state.vfs := rfl
      have made : upperAt ((state.apply plain (.createDirAll upper.dropLast)).apply plain (.createDir upper)) parts = some .dir :=
        (layer _ vfs).trans (createDir_made named clear held)
      rw [if_neg unknown,if_neg named,VfsState.createParents,if_neg named,mkdirMemory_atomic root vfs free made target,free]
      simp [root]

theorem fresh_directory_made :
    Atomic (sandbox []) ((sandbox []).vfs.resolve "/tmp/new".toList) (VfsState.mkdir plain (sandbox []) "/tmp/new".toList) := by
  have works : ∀ place, (sandbox []).vfs.resolveUpperPath ((sandbox []).vfs.resolve "/tmp/new".toList) = some place →
      Passable (sandbox []).host place.dropLast := by
    rintro place found
    cases found
    decide
  have both : BothParents (sandbox []) ((sandbox []).vfs.resolve "/tmp/new".toList) := ⟨by decide,by decide,by decide⟩
  exact (mkdir_atomic (sandbox []) "/tmp/new".toList "/tmp/new".toList (by decide) (by decide) rfl works).mpr (Or.inr (Or.inr both))

theorem refused_directory_made :
    (sandbox []).vfs.mountRoot.isSome ∧
    (VfsState.mkdir plain (sandbox []) "/etc".toList).1 =
      "mkdir: cannot create directory '/etc': File exists\r\n".toList ∧
    upperAt (sandbox []) ["etc".toList] = none ∧
    upperAt (VfsState.mkdir plain (sandbox []) "/etc".toList).2 ["etc".toList] = some .dir ∧
    ¬ Atomic (sandbox []) ["etc".toList] (VfsState.mkdir plain (sandbox []) "/etc".toList) := by
  have spoken : (VfsState.mkdir plain (sandbox []) "/etc".toList).1 =
      "mkdir: cannot create directory '/etc': File exists\r\n".toList := by decide
  have before : upperAt (sandbox []) ["etc".toList] = none := by decide
  have after : upperAt (VfsState.mkdir plain (sandbox []) "/etc".toList).2 ["etc".toList] = some .dir := by decide
  refine ⟨rfl,spoken,before,after,?_⟩
  intro atomic
  have same := atomic.unchanged (by rw [spoken]; decide)
  rw [same,before] at after
  cases after

end Atomic

end AegisHoneypot.LayeredCreation
