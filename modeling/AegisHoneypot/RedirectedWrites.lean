import AegisHoneypot.MergedView
import AegisHoneypot.Library.TreeShape

-- What a redirection does to the file it names and to everything else.
namespace AegisHoneypot.RedirectedWrites
open FileTree Utf8Text VfsNode Vfs VfsTree VfsDepth MergedView

-- The node the write leaves in the tree: an append keeps the file that is there.
def replaced (append : Bool) (content : Text) : Option Look → FileNode
  | some (.file node) => if append then {node with content := node.content ++ content} else ⟨content,"-rw-r--r--".toList,false⟩
  | _ => ⟨content,"-rw-r--r--".toList,false⟩

section Tree
variable {σ : Type} (fs : HostFs σ) (state : VfsState σ) (target content : Text) (append : Bool)

theorem writeFile_root (root : state.vfs.resolve target = []) :
    VfsState.writeFile fs state target content append = ("bash: ".toList ++ target ++ ": Is a directory\r\n".toList,state) :=
  if_pos root

theorem writeFile_silent (named : state.vfs.resolve target ≠ []) : (VfsState.writeFile fs state target content append).1 = [] := by
  unfold VfsState.writeFile
  dsimp only
  rw [if_neg named]
  split <;> rfl

def written : VfsState σ := state.onUpper (state.vfs.resolve target) (fun upper => (state.createParents fs upper).apply fs
  (if append then .append upper (encode content) else .write upper (encode content)))

theorem writeFile_host : (VfsState.writeFile fs state target content append).2.host =
    if state.vfs.resolve target = [] then state.host else (written fs state target content append).host := by
  unfold VfsState.writeFile written
  dsimp only
  split
  · rfl
  · split <;> rfl

theorem writeFile_tree (named : state.vfs.resolve target ≠ []) (path : Path) :
    lookAt (VfsState.writeFile fs state target content append).2.vfs.root path =
      if (state.parentDir (state.vfs.resolve target)).isSome ∧ state.vfs.resolve target <+: path then
        (if path = state.vfs.resolve target then
          some (.file (replaced append content (lookAt state.vfs.root (state.vfs.resolve target)))) else none)
      else lookAt state.vfs.root path := by
  have same : (written fs state target content append).vfs = state.vfs := written_vfs fs state _ _
  unfold written at same
  unfold VfsState.writeFile
  dsimp only
  rw [if_neg named]
  generalize state.vfs.resolve target = parts at named same ⊢
  generalize VfsState.onUpper state parts _ = after at same ⊢
  have parent : after.parentDir parts = state.parentDir parts := by rw [VfsState.parentDir,VfsState.parentDir,same]
  rw [parent]
  cases found : state.parentDir parts with
  | none => simp [same]
  | some children =>
    have node : (children.get (VfsState.baseName parts)).map look = lookAt state.vfs.root parts := by
      rw [lookAt,getNodeSafe_parent state.vfs.root named,show state.vfs.root.getDir parts.dropLast = some children from found]
      rfl
    have inserted : ∀ node, lookAt (after.setParent parts (children.insert (VfsState.baseName parts) (.file node))).vfs.root path =
        if parts <+: path then (if path = parts then some (.file node) else none) else lookAt after.vfs.root path :=
      fun node => insertLeaf_lookAt after named (parent.trans found) (fun _ _ => rfl) path
    rw [same] at inserted
    simp only [Option.isSome_some,true_and]
    rw [← node,← inserted]
    rcases children.get (VfsState.baseName parts) with _ | (held | ⟨perms,inner⟩)
    · cases append <;> rfl
    · cases append <;> rfl
    · cases append <;> rfl

end Tree

section Directories
variable {σ : Type} (fs : HostFs σ) (state : VfsState σ) (target content : Text) (append : Bool)

-- Every directory of the tree stays one and keeps its children, apart from the
-- target itself.
def KeepsDirectories (before after : Children) (parts : Path) : Prop :=
  ∀ path perms, lookAt before path = some (.dir perms) → lookAt after path = some (.dir perms) ∧
    ∀ name, path ++ [name] ≠ parts → lookAt after (path ++ [name]) = lookAt before (path ++ [name])

def RefusesDirectory : Prop :=
  merged (fs.view state.host) state.vfs (state.vfs.resolve target) = some .dir →
    VfsState.writeFile fs state target content append = ("bash: ".toList ++ target ++ ": Is a directory\r\n".toList,state)

theorem write_elsewhere (leaf : ∀ perms, lookAt state.vfs.root (state.vfs.resolve target) ≠ some (.dir perms))
    (other : path ≠ state.vfs.resolve target) (named : state.vfs.resolve target ≠ []) :
    lookAt (VfsState.writeFile fs state target content append).2.vfs.root path = lookAt state.vfs.root path := by
  rw [writeFile_tree fs state target content append named]
  split
  · rename_i inside
    exact (lookAt_below leaf inside.2 other).symm
  · rfl

theorem directories_spared :
    KeepsDirectories state.vfs.root (VfsState.writeFile fs state target content append).2.vfs.root (state.vfs.resolve target) ∧
      RefusesDirectory fs state target content append ↔
    state.vfs.resolve target = [] ∨
      (∀ perms, lookAt state.vfs.root (state.vfs.resolve target) ≠ some (.dir perms)) ∧
      merged (fs.view state.host) state.vfs (state.vfs.resolve target) ≠ some .dir := by
  by_cases root : state.vfs.resolve target = []
  · have refused := writeFile_root fs state target content append root
    refine ⟨fun _ => Or.inl root,fun _ => ⟨?_,fun _ => refused⟩⟩
    rw [refused]
    exact fun path perms dir => ⟨dir,fun _ _ => rfl⟩
  · constructor
    · rintro ⟨keeps,refuses⟩
      refine Or.inr ⟨?_,?_⟩
      · intro perms dir
        have parent : (state.parentDir (state.vfs.resolve target)).isSome := by
          rw [lookAt,getNodeSafe_parent state.vfs.root root] at dir
          unfold VfsState.parentDir
          cases found : state.vfs.root.getDir (state.vfs.resolve target).dropLast with
          | none => simp [found] at dir
          | some children => rfl
        have kept := (keeps _ perms dir).1
        rw [writeFile_tree fs state target content append root,if_pos ⟨parent,List.prefix_refl _⟩,if_pos rfl] at kept
        cases kept
      · intro dir
        have answer := congrArg Prod.fst (refuses dir)
        rw [writeFile_silent fs state target content append root] at answer
        simp at answer
    · rintro (given | ⟨leaf,free⟩)
      · exact absurd given root
      · refine ⟨?_,fun dir => absurd dir free⟩
        intro path perms dir
        have other : path ≠ state.vfs.resolve target := by
          rintro rfl
          exact leaf perms dir
        refine ⟨?_,?_⟩
        · rw [write_elsewhere fs state target content append leaf other root,dir]
        · intro name apart
          exact write_elsewhere fs state target content append leaf apart root

end Directories

def fresh : VfsState Disk := ⟨VirtualFileSystem.withRoots (some ["upper".toList]) (some ["rootfs".toList]),∅⟩

theorem directory_replaced_by_file :
    lookAt fresh.vfs.root ["etc".toList] = some (.dir "drwxr-xr-x".toList) ∧
    (lookAt fresh.vfs.root ["etc".toList,"passwd".toList]).isSome ∧
    lookAt (VfsState.writeFile plain fresh "/etc".toList "x".toList false).2.vfs.root ["etc".toList] =
      some (.file ⟨"x".toList,"-rw-r--r--".toList,false⟩) ∧
    lookAt (VfsState.writeFile plain fresh "/etc".toList "x".toList false).2.vfs.root ["etc".toList,"passwd".toList] = none ∧
    ¬ (KeepsDirectories fresh.vfs.root (VfsState.writeFile plain fresh "/etc".toList "x".toList false).2.vfs.root ["etc".toList] ∧
      RefusesDirectory plain fresh "/etc".toList "x".toList false) := by
  have parts : fresh.vfs.resolve "/etc".toList = ["etc".toList] := by decide
  have dir : lookAt fresh.vfs.root ["etc".toList] = some (.dir "drwxr-xr-x".toList) := by decide
  have tree := writeFile_tree plain fresh "/etc".toList "x".toList false (by rw [parts]; simp)
  rw [parts,dir] at tree
  have parent : (fresh.parentDir ["etc".toList]).isSome := rfl
  have file := tree ["etc".toList]
  rw [if_pos ⟨parent,List.prefix_refl _⟩,if_pos rfl] at file
  have lost := tree ["etc".toList,"passwd".toList]
  rw [if_pos ⟨parent,by decide⟩,if_neg (by simp)] at lost
  refine ⟨dir,by decide,file,lost,?_⟩
  rintro ⟨keeps,_⟩
  have kept := (keeps _ _ dir).1
  rw [file] at kept
  cases kept

section Append

def textAt (state : VfsState Disk) (parts : Path) : Option Text :=
  (merged (plain.view state.host) state.vfs parts).bind Sight.text

-- A text file, or a new name in a directory that is there.
def Appendable (state : VfsState Disk) (parts : Path) : Prop :=
  (textAt state parts).isSome ∨ merged (plain.view state.host) state.vfs parts = none ∧
    merged (plain.view state.host) state.vfs parts.dropLast = some .dir

-- No file of the writable layer stands on the way, so that its writes succeed.
def Writable (state : VfsState Disk) (parts : Path) : Prop :=
  ∀ place, state.vfs.resolveUpperPath parts = some place → Passable state.host place.dropLast

-- Nothing is copied up: what is to be kept must be in the layer that is written.
def InWrittenLayer (state : VfsState Disk) (parts : Path) (content : Text) : Prop :=
  match state.vfs.mountRoot with
  | some _ => (upper (plain.view state.host) state.vfs parts).isSome ∨ (textAt state parts).getD [] = []
  | none => if (lower (plain.view state.host) state.vfs parts).isSome then content = [] else (state.parentDir parts).isSome

theorem appendable_named (appendable : Appendable state parts) : parts ≠ [] := by
  rintro rfl
  rcases appendable with text | ⟨missing,_⟩
  · cases text
  · cases missing

theorem appendable_text (appendable : Appendable state parts)
    (shown : merged (plain.view state.host) state.vfs parts = some sight) : ∃ text, sight.text = some text := by
  rcases appendable with text | ⟨missing,_⟩
  · rw [textAt,shown] at text
    exact Option.isSome_iff_exists.mp text
  · rw [shown] at missing
    cases missing

theorem encode_append (before after : Text) : encode (before ++ after) = encode before ++ encode after := List.flatMap_append

theorem text_shown (content : Text) : Sight.text (.file (encode content)) = some content := fromUtf8_iff.mpr rfl

-- Without a writable layer the tree alone is written, behind the golden image.
theorem append_unmounted (unmounted : state.vfs.mountRoot = none) (appendable : Appendable state (state.vfs.resolve target)) :
    textAt (VfsState.writeFile plain state target content true).2 (state.vfs.resolve target) =
        some ((textAt state (state.vfs.resolve target)).getD [] ++ content) ↔
      InWrittenLayer state (state.vfs.resolve target) content := by
  have named := appendable_named appendable
  have same := writeFile_roots plain state target content true
  have host : (VfsState.writeFile plain state target content true).2.host = state.host := by
    rw [writeFile_host,if_neg named,written,VfsState.onUpper,VirtualFileSystem.resolveUpperPath,unmounted]
    rfl
  have tree := writeFile_tree plain state target content true named (state.vfs.resolve target)
  simp only [List.prefix_refl,and_true,if_true] at tree
  generalize VfsState.writeFile plain state target content true = answer at same host tree ⊢
  generalize state.vfs.resolve target = parts at appendable named tree ⊢
  have noUpper : ∀ (view : View) (vfs : VirtualFileSystem), vfs.mountRoot = none → upper view vfs parts = none := by
    intro view vfs none
    rw [upper,VirtualFileSystem.resolveUpperPath,none]
    rfl
  have shown : ∀ {sight}, beneath (plain.view state.host) state.vfs parts = some sight →
      merged (plain.view state.host) state.vfs parts = some sight := by
    intro sight found
    rw [merged_named _ _ named,noUpper _ _ unmounted,found]
    rfl
  have before : textAt state parts = (beneath (plain.view state.host) state.vfs parts).bind Sight.text := by
    rw [textAt,merged_named _ _ named,noUpper _ _ unmounted]
    rfl
  have after : textAt answer.2 parts = (beneath (plain.view state.host) answer.2.vfs parts).bind Sight.text := by
    rw [textAt,merged_named _ _ named,noUpper _ _ (same.mountRoot.trans unmounted),host]
    rfl
  have lowerSame : lower (plain.view state.host) answer.2.vfs parts = lower (plain.view state.host) state.vfs parts := by
    rw [lower,lower,same.lowerPath]
  unfold InWrittenLayer
  rw [unmounted]
  unfold beneath at before after
  rw [lowerSame] at after
  rcases held : lower (plain.view state.host) state.vfs parts with _ | entry
  · rw [held] at before after
    simp only [Option.map_none,Option.none_or,memory] at before after
    simp only [Option.isSome_none,Bool.false_eq_true,if_false]
    cases found : state.parentDir parts with
    | none =>
      have free : lookAt state.vfs.root parts = none := by
        rw [lookAt,getNodeSafe_parent state.vfs.root named,show state.vfs.root.getDir parts.dropLast = none from found]
        rfl
      rw [found] at tree
      rw [after,tree,free]
      simp
    | some children =>
      rw [found] at tree
      simp only [Option.isSome_some,if_true] at tree
      simp only [Option.isSome_some,iff_true]
      rw [after,before,tree]
      rcases look : lookAt state.vfs.root parts with _ | (perms | node)
      · exact text_shown content
      · obtain ⟨text,given⟩ := appendable_text appendable (shown (by rw [beneath,held,memory,look]; rfl))
        cases given
      · obtain ⟨text,given⟩ := appendable_text appendable (shown (by rw [beneath,held,memory,look]; rfl))
        obtain ⟨old,perms,denied⟩ := node
        cases denied with
        | true => cases given
        | false =>
          simp only [replaced,if_true,Option.map_some,Option.bind_some,ofLook,Bool.false_eq_true,if_false,text_shown,Option.getD_some]
  · rw [held] at before after
    obtain ⟨text,given⟩ := appendable_text appendable (shown (by rw [beneath,held]; rfl))
    have kept : textAt state parts = some text := before.trans given
    rw [after.trans given,kept]
    simp

-- With one, the file there is extended or a new one begins.
theorem append_mounted (mounted : state.vfs.mountRoot = some base) (writable : Writable state (state.vfs.resolve target))
    (appendable : Appendable state (state.vfs.resolve target)) :
    textAt (VfsState.writeFile plain state target content true).2 (state.vfs.resolve target) =
        some ((textAt state (state.vfs.resolve target)).getD [] ++ content) ↔
      InWrittenLayer state (state.vfs.resolve target) content := by
  have named := appendable_named appendable
  have same := writeFile_roots plain state target content true
  have found : state.vfs.resolveUpperPath (state.vfs.resolve target) =
      some (VirtualFileSystem.resolveDiskPathBase base (state.vfs.resolve target)) := by
    rw [VirtualFileSystem.resolveUpperPath,mounted]
    rfl
  have passable := writable _ found
  have host := writeFile_host plain state target content true
  rw [if_neg named,written,VfsState.onUpper,found] at host
  dsimp only at host
  generalize VfsState.writeFile plain state target content true = answer at same host ⊢
  generalize state.vfs.resolve target = parts at writable appendable named passable found host ⊢
  generalize VirtualFileSystem.resolveDiskPathBase base parts = place at passable found host
  have layer : upper (plain.view state.host) state.vfs parts = entry state.host place := by
    rw [upper,found]
    rfl
  have leaf : entry state.host place ≠ some .dir := by
    intro dir
    obtain ⟨text,given⟩ := appendable_text appendable (merged_upper named (layer.trans dir))
    cases given
  have below : place ≠ [] := by
    rintro rfl
    exact leaf rfl
  rw [VfsState.createParents,if_neg below] at host
  have grown := append_entry state.host below passable leaf (encode content)
  have after : textAt answer.2 parts = Sight.text (.file (contentAt state.host place ++ encode content)) := by
    rw [textAt,merged_named _ _ named,upper,same.upperPath,found]
    change (Option.or ((entry answer.2.host place).map ofEntry) _).bind Sight.text = _
    rw [host]
    change (Option.or ((entry (FileTree.apply (createDirAll state.host place.dropLast) (.append place (encode content))) place).map ofEntry) _).bind Sight.text = _
    rw [grown]
    rfl
  unfold InWrittenLayer
  rw [mounted,after,layer,contentAt]
  rcases held : entry state.host place with _ | (_ | old)
  · simp [text_shown]
  · exact absurd held leaf
  · have shown := merged_upper named (layer.trans held)
    obtain ⟨text,given⟩ := appendable_text appendable shown
    have kept : textAt state parts = some text := by
      rw [textAt,shown]
      exact given
    rw [kept,fromUtf8_iff.mp given,← encode_append,text_shown]
    simp

theorem append_exact (state : VfsState Disk) (target content : Text) (writable : Writable state (state.vfs.resolve target))
    (appendable : Appendable state (state.vfs.resolve target)) :
    textAt (VfsState.writeFile plain state target content true).2 (state.vfs.resolve target) =
        some ((textAt state (state.vfs.resolve target)).getD [] ++ content) ↔
      InWrittenLayer state (state.vfs.resolve target) content := by
  cases mounted : state.vfs.mountRoot with
  | none => exact append_unmounted mounted appendable
  | some base => exact append_mounted mounted writable appendable

-- One file of the session and one of the golden image.
def layers : Disk := ((createDirAll (createDirAll ∅ ["upper".toList]) ["rootfs".toList,"etc".toList]).insert
  ["upper".toList,"notes".toList] (.file (encode "hi".toList))).insert
  ["rootfs".toList,"etc".toList,"motd".toList] (.file (encode "hi".toList))

def fallback : VfsState Disk := ⟨VirtualFileSystem.withRoots (some ["upper".toList]) (some ["rootfs".toList]),layers⟩

theorem fallback_writable (clear : Passable layers (VirtualFileSystem.resolveDiskPathBase ["upper".toList] parts).dropLast) :
    Writable fallback parts := by
  rintro place found
  cases found
  exact clear

theorem session_file_extended :
    Writable fallback (fallback.vfs.resolve "/notes".toList) ∧ Appendable fallback (fallback.vfs.resolve "/notes".toList) ∧
    textAt (VfsState.writeFile plain fallback "/notes".toList "!".toList true).2 (fallback.vfs.resolve "/notes".toList) =
      some ((textAt fallback (fallback.vfs.resolve "/notes".toList)).getD [] ++ "!".toList) := by
  have writable : Writable fallback (fallback.vfs.resolve "/notes".toList) := fallback_writable (by decide)
  have appendable : Appendable fallback (fallback.vfs.resolve "/notes".toList) := Or.inl (by decide)
  exact ⟨writable,appendable,(append_exact fallback _ _ writable appendable).mpr (Or.inl (by decide))⟩

theorem golden_file_lost :
    Writable fallback (fallback.vfs.resolve "/etc/motd".toList) ∧ Appendable fallback (fallback.vfs.resolve "/etc/motd".toList) ∧
    textAt fallback (fallback.vfs.resolve "/etc/motd".toList) = some "hi".toList ∧
    textAt (VfsState.writeFile plain fallback "/etc/motd".toList "!".toList true).2
      (fallback.vfs.resolve "/etc/motd".toList) = some "!".toList ∧
    textAt (VfsState.writeFile plain fallback "/etc/motd".toList "!".toList true).2 (fallback.vfs.resolve "/etc/motd".toList) ≠
      some ((textAt fallback (fallback.vfs.resolve "/etc/motd".toList)).getD [] ++ "!".toList) := by
  have writable : Writable fallback (fallback.vfs.resolve "/etc/motd".toList) := fallback_writable (by decide)
  have text : textAt fallback (fallback.vfs.resolve "/etc/motd".toList) = some "hi".toList := by decide
  have cut : textAt (VfsState.writeFile plain fallback "/etc/motd".toList "!".toList true).2
      (fallback.vfs.resolve "/etc/motd".toList) = some "!".toList := by decide
  refine ⟨writable,Or.inl (by rw [text]; rfl),text,cut,?_⟩
  rw [cut,text]
  decide

end Append

end AegisHoneypot.RedirectedWrites
