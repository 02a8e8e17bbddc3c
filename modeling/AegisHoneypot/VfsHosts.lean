import AegisHoneypot.ShellDispatch

-- The virtual file system looks at its host only through the file system it is
-- given: on two hosts that agree there, a session runs the same way.
namespace AegisHoneypot.VfsHosts
open FileTree Utf8Text Vfs Shell

structure Maps (fs : HostFs σ) (image : HostFs τ) (change : σ → τ) : Prop where
  view : ∀ host, image.view (change host) = fs.view host
  apply : ∀ host op, image.apply (change host) op = change (fs.apply host op)

def moved (change : σ → τ) (state : VfsState σ) : VfsState τ := ⟨state.vfs,change state.host⟩

def answered (change : σ → τ) (answer : Text × VfsState σ) : Text × VfsState τ := (answer.1,moved change answer.2)

section Commands
variable {σ τ : Type} {fs : HostFs σ} {image : HostFs τ} {change : σ → τ}

@[simp] theorem moved_vfs (state : VfsState σ) : (moved change state).vfs = state.vfs := rfl

@[simp] theorem moved_parentDir (state : VfsState σ) (parts : Path) :
    (moved change state).parentDir parts = state.parentDir parts := rfl

@[simp] theorem moved_setParent (state : VfsState σ) (parts : Path) (changed : VfsNode.Children) :
    (moved change state).setParent parts changed = moved change (state.setParent parts changed) := rfl

@[simp] theorem moved_inMemory (state : VfsState σ) (update : VfsNode.Children → VfsNode.Children) :
    (moved change state).inMemory update = moved change (state.inMemory update) := rfl

theorem mkdirMemory_moved (parents : Bool) (target : Text) (parts : Path) (output : Text) (state : VfsState σ) :
    VfsState.mkdirMemory parents target parts output (moved change state) =
      answered change (VfsState.mkdirMemory parents target parts output state) := by
  simp only [VfsState.mkdirMemory,moved_parentDir,moved_inMemory,moved_setParent]
  split
  · rfl
  · cases state.parentDir parts with
    | none => rfl
    | some children =>
      dsimp only
      split
      · rfl
      · rfl

theorem rmMemory_moved (recursive force : Bool) (target : Text) (parts : Path) (output : Text) (state : VfsState σ) :
    VfsState.rmMemory recursive force target parts output (moved change state) =
      answered change (VfsState.rmMemory recursive force target parts output state) := by
  simp only [VfsState.rmMemory,moved_parentDir,moved_setParent]
  cases state.parentDir parts with
  | none => rfl
  | some children =>
    dsimp only
    split
    · rfl
    · rfl
    · rfl

variable (maps : Maps fs image change)
include maps

theorem view_moved (state : VfsState σ) : image.view (moved change state).host = fs.view state.host := maps.view state.host

theorem apply_moved (state : VfsState σ) (op : DiskOp) :
    (moved change state).apply image op = moved change (state.apply fs op) := by
  simp only [moved,VfsState.apply,maps.apply]

theorem createParents_moved (state : VfsState σ) (path : Path) :
    (moved change state).createParents image path = moved change (state.createParents fs path) := by
  unfold VfsState.createParents
  split
  · rfl
  · exact apply_moved maps state _

theorem mkdirTarget_moved (parents : Bool) (current : Text × VfsState σ) (target : Text) :
    VfsState.mkdirTarget image parents (answered change current) target =
      answered change (VfsState.mkdirTarget fs parents current target) := by
  obtain ⟨output,state⟩ := current
  simp only [VfsState.mkdirTarget,answered,moved_vfs,view_moved maps,apply_moved maps,createParents_moved maps,mkdirMemory_moved]
  split
  · rfl
  · cases state.vfs.resolveUpperPath (state.vfs.resolve target) with
    | none => rfl
    | some upper =>
      dsimp only
      split
      · rfl
      · split
        · rfl
        · split
          · rfl
          · rfl

theorem written_moved (state : VfsState σ) (parts : Path) (op : Path → DiskOp) :
    (moved change state).onUpper parts (fun upper => ((moved change state).createParents image upper).apply image (op upper)) =
      moved change (state.onUpper parts (fun upper => (state.createParents fs upper).apply fs (op upper))) := by
  simp only [VfsState.onUpper,moved_vfs,createParents_moved maps,apply_moved maps]
  cases state.vfs.resolveUpperPath parts with
  | none => rfl
  | some upper => rfl

theorem touchTarget_moved (state : VfsState σ) (target : Text) :
    VfsState.touchTarget image (moved change state) target = moved change (VfsState.touchTarget fs state target) := by
  simp only [VfsState.touchTarget,moved_vfs,written_moved maps,moved_parentDir,moved_setParent]
  split
  · rfl
  · generalize state.onUpper (state.vfs.resolve target) _ = written
    cases written.parentDir (state.vfs.resolve target) with
    | none => rfl
    | some children =>
      dsimp only
      split
      · rfl
      · rfl

theorem rmDisk_moved (recursive force : Bool) (state : VfsState σ) (upper : Path) :
    VfsState.rmDisk image recursive force (moved change state) upper =
      (VfsState.rmDisk fs recursive force state upper).map (moved change) := by
  simp only [VfsState.rmDisk,view_moved maps,apply_moved maps]
  cases (fs.view state.host).entry upper with
  | none => rfl
  | some entry =>
    cases entry with
    | file content => rfl
    | dir =>
      dsimp only
      split
      · rfl
      · split
        · rfl
        · rfl

theorem rmTarget_moved (recursive force : Bool) (current : Text × VfsState σ) (target : Text) :
    VfsState.rmTarget image recursive force (answered change current) target =
      answered change (VfsState.rmTarget fs recursive force current target) := by
  obtain ⟨output,state⟩ := current
  simp only [VfsState.rmTarget,answered,moved_vfs,rmDisk_moved maps,rmMemory_moved]
  split
  · rfl
  · cases state.vfs.resolveUpperPath (state.vfs.resolve target) with
    | none => rfl
    | some upper =>
      dsimp only
      cases VfsState.rmDisk fs recursive force state upper with
      | none => rfl
      | some removed => exact rmMemory_moved ..

theorem writeFile_moved (state : VfsState σ) (target content : Text) (append : Bool) :
    VfsState.writeFile image (moved change state) target content append =
      answered change (VfsState.writeFile fs state target content append) := by
  simp only [VfsState.writeFile,moved_vfs,moved_parentDir,moved_setParent,written_moved maps state (state.vfs.resolve target)
    (fun upper => if append then .append upper (encode content) else .write upper (encode content))]
  split
  · rfl
  · generalize state.onUpper (state.vfs.resolve target) _ = written
    cases written.parentDir (state.vfs.resolve target) with
    | none => rfl
    | some children => rfl

omit maps in
theorem targets_moved {before : α → Text → α} {after : β → Text → β} (carry : α → β)
    (one : ∀ current target, after (carry current) target = carry (before current target)) (targets : List Text) (start : α) :
    targets.foldl after (carry start) = carry (targets.foldl before start) := by
  induction targets generalizing start with
  | nil => rfl
  | cons target rest ih => rw [List.foldl_cons,List.foldl_cons,one,ih]

theorem run_moved (state : VfsState σ) (command : VfsCommand) :
    (moved change state).run image command = answered change (state.run fs command) := by
  cases command with
  | pwd => rfl
  | cd arg =>
    simp only [VfsState.run,moved_vfs,view_moved maps]
    rfl
  | ls args =>
    simp only [VfsState.run,moved_vfs,view_moved maps]
    rfl
  | cat args =>
    simp only [VfsState.run,moved_vfs,view_moved maps]
    rfl
  | mkdir args =>
    simp only [VfsState.run,VfsState.mkdir]
    split
    · rfl
    · exact targets_moved (answered change) (mkdirTarget_moved maps _) _ ([],state)
  | touch args =>
    simp only [VfsState.run,VfsState.touch]
    split
    · rfl
    · exact congrArg (Prod.mk []) (targets_moved (moved change) (touchTarget_moved maps) _ state)
  | rm args =>
    simp only [VfsState.run,VfsState.rm]
    split
    · rfl
    · exact targets_moved (answered change) (rmTarget_moved maps _ _) _ ([],state)
  | writeFile target content append => exact writeFile_moved maps state target content append

variable (date : Text)

theorem dispatchPure_moved (cmd : Text) (state : VfsState σ) :
    dispatchPure image date cmd (moved change state) = answered change (dispatchPure fs date cmd state) := by
  simp only [dispatchPure,run_moved maps,moved_vfs,view_moved maps]
  split
  · rfl
  · split
    · rfl
    · rfl

theorem dispatchRedirect_moved (redirect : Redirect) (state : VfsState σ) :
    dispatchRedirect image date redirect (moved change state) = moved change (dispatchRedirect fs date redirect state) := by
  simp only [dispatchRedirect,dispatchPure_moved maps,answered,run_moved maps]

theorem dispatchSimple_moved (cmd : Text) (state : VfsState σ) :
    dispatchSimple image date cmd (moved change state) = answered change (dispatchSimple fs date cmd state) := by
  simp only [dispatchSimple,dispatchRedirect_moved maps,dispatchPure_moved maps]
  split
  · rfl
  · rfl

theorem dispatchNext_moved (current : Text × VfsState σ) (part : Text) :
    dispatchNext image date (answered change current) part = answered change (dispatchNext fs date current part) := by
  simp only [dispatchNext,answered,dispatchSimple_moved maps]

theorem dispatch_moved (cmd : Text) (state : VfsState σ) :
    dispatch image date cmd (moved change state) = answered change (dispatch fs date cmd state) := by
  simp only [dispatch,dispatchRedirect_moved maps,dispatchPure_moved maps]
  split
  · rfl
  · split
    · exact targets_moved (answered change) (dispatchNext_moved maps date) _ ([],state)
    · rfl

end Commands

-- The same file system on the hosts of one kind, where every operation stays
-- among them.
def among (fs : HostFs σ) (keep : σ → Prop) (keeps : ∀ host op, keep host → keep (fs.apply host op)) :
    HostFs {host // keep host} where
  view host := fs.view host.val
  apply host op := ⟨fs.apply host.val op,keeps host.val op host.property⟩

theorem dispatch_kept (fs : HostFs σ) (date : Text) (keep : σ → Prop) (keeps : ∀ host op, keep host → keep (fs.apply host op))
    (cmd : Text) (state : VfsState σ) (kept : keep state.host) : keep (dispatch fs date cmd state).2.host := by
  have maps : Maps (among fs keep keeps) fs Subtype.val := ⟨fun _ => rfl,fun _ _ => rfl⟩
  have same := dispatch_moved maps date cmd ⟨state.vfs,⟨state.host,kept⟩⟩
  change dispatch fs date cmd state = _ at same
  rw [same]
  exact (dispatch (among fs keep keeps) date cmd ⟨state.vfs,⟨state.host,kept⟩⟩).2.host.property

end AegisHoneypot.VfsHosts
