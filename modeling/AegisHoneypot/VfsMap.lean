import AegisHoneypot.VfsListing
import AegisHoneypot.Library.Transition

-- What the in-memory tree is for, in a session that has no writable layer: a map
-- from paths to entries above the golden image. The commands of the tree refine
-- those of the map.
namespace AegisHoneypot.VfsMap
open FileTree Utf8Text VfsNode Vfs VfsTree VfsDepth VfsListing

structure FlatFs where
  currentPath : Path
  entries : Path → Option Look

def newLook (content : Text) : Look := .file ⟨content,"-rw-r--r--".toList,false⟩

def dirLook : Look := .dir "drwxr-xr-x".toList

def IsFile (entry : Option Look) : Prop := ∃ node, entry = some (.file node)

-- A path on the way that is missing, with no file above it.
structure Makes (entries : Path → Option Look) (parts path : Path) : Prop where
  onWay : path <+: parts
  missing : entries path = none
  free : ∀ early, early <+: path → ¬ IsFile (entries early)

open Classical in
noncomputable def made (entries : Path → Option Look) (parts path : Path) : Option Look :=
  if Makes entries parts path then some dirLook else entries path

namespace FlatFs

def resolve (flat : FlatFs) (path : Text) : Path := VirtualFileSystem.resolve ⟨flat.currentPath,none,none,[]⟩ path

-- An entry takes the place of whatever was at and below its path.
def put (flat : FlatFs) (parts : Path) (entry : Option Look) : FlatFs :=
  {flat with entries := fun path => if parts <+: path then (if path = parts then entry else none) else flat.entries path}

noncomputable def makeDirs (flat : FlatFs) (parts : Path) : FlatFs := {flat with entries := made flat.entries parts}

section Commands
variable (view : View) (lowerRoot : Option Path)

def lowerPath (parts : Path) : Option Path := lowerRoot.map (fun base => VirtualFileSystem.resolveDiskPathBase base parts)

def cd (flat : FlatFs) (arg : Text) : Text × FlatFs :=
  let arg := arg.trim
  let parts := if arg = [] then ["root".toList] else flat.resolve arg
  let entered := ([],{flat with currentPath := parts})
  let notDirectory := ("bash: cd: ".toList ++ arg ++ ": Not a directory\r\n".toList,flat)
  if parts = [] then entered else
  match VirtualFileSystem.layerEntry view (lowerPath lowerRoot parts),flat.entries parts with
  | some .dir,_ => entered
  | some (.file _),_ => notDirectory
  | none,some (.dir _) => entered
  | none,some (.file _) => notDirectory
  | none,none => ("bash: cd: ".toList ++ arg ++ ": No such file or directory\r\n".toList,flat)

-- The golden image hides an entry of the same name.
def row (flat : FlatFs) (parts : Path) (name : Text) : Option VirtualFileSystem.LsEntry :=
  (layerRow view (lowerPath lowerRoot parts) name).or ((flat.entries (parts ++ [name])).map memoryRow)

noncomputable def lsTarget (flat : FlatFs) (long showHidden : Bool) (parts : Path) : Text :=
  match VirtualFileSystem.layerEntry view (lowerPath lowerRoot parts) with
  | some (.file content) => VirtualFileSystem.lsFile long parts content
  | _ =>
    let rows := listing (flat.row view lowerRoot parts)
    if rows = [] ∧ parts ≠ [] ∧ flat.entries parts = none then
      "ls: cannot access '".toList ++ VirtualFileSystem.pathText parts ++ "': No such file or directory\r\n".toList
    else renderRows long showHidden rows

noncomputable def ls (flat : FlatFs) (args : Text) : Text :=
  let flags := (args.splitWhitespace.filter VirtualFileSystem.isFlag).flatMap (fun token => token.drop 1)
  let targets := VirtualFileSystem.operands args
  let places := if targets = [] then [flat.currentPath] else targets.map flat.resolve
  places.flatMap (flat.lsTarget view lowerRoot (flags.contains 'l') (flags.contains 'a' || flags.contains 'A'))

def catTarget (flat : FlatFs) (target : Text) : Text :=
  if target.containsText "shadow" then "cat: ".toList ++ target ++ ": Permission denied\r\n".toList else
  match VirtualFileSystem.catLayer view (lowerPath lowerRoot (flat.resolve target)) target with
  | some shown => shown
  | none => match flat.entries (flat.resolve target) with
    | none => "cat: ".toList ++ target ++ ": No such file or directory\r\n".toList
    | some (.dir _) => "cat: ".toList ++ target ++ ": Is a directory\r\n".toList
    | some (.file node) => if node.permissionDenied then "cat: ".toList ++ target ++ ": Permission denied\r\n".toList
      else VirtualFileSystem.catContent node.content

def cat (flat : FlatFs) (args : Text) : Text :=
  (VirtualFileSystem.operands args).flatMap (flat.catTarget view lowerRoot)

end Commands

-- A complaint is only heard while nothing has been printed.
def complain (output complaint : Text) : Text := if output = [] then complaint else output

noncomputable def mkdirTarget (parents : Bool) (current : Text × FlatFs) (target : Text) : Text × FlatFs :=
  let (output,flat) := current
  let parts := flat.resolve target
  if parts = [] then (output ++ "mkdir: cannot create directory '/': File exists\r\n".toList,flat)
  else if parents then (output,flat.makeDirs parts) else
  match flat.entries parts.dropLast,flat.entries parts with
  | some (.dir _),none => (output,flat.put parts (some dirLook))
  | some (.dir _),some _ => (complain output (VfsState.quoted "mkdir" "cannot create directory" "File exists" target),flat)
  | _,_ => (complain output (VfsState.quoted "mkdir" "cannot create directory" "No such file or directory" target),flat)

noncomputable def mkdir (flat : FlatFs) (args : Text) : Text × FlatFs :=
  let targets := VirtualFileSystem.operands args
  if targets = [] then ("mkdir: missing operand\r\n".toList,flat)
  else targets.foldl (mkdirTarget (args.splitWhitespace.any (· == "-p".toList))) ([],flat)

def touchTarget (flat : FlatFs) (target : Text) : FlatFs :=
  let parts := flat.resolve target
  if parts = [] then flat else
  match flat.entries parts.dropLast,flat.entries parts with
  | some (.dir _),none => flat.put parts (some (newLook []))
  | _,_ => flat

def touch (flat : FlatFs) (args : Text) : Text × FlatFs :=
  let targets := VirtualFileSystem.operands args
  if targets = [] then ("touch: missing file operand\r\n".toList,flat) else ([],targets.foldl touchTarget flat)

def rmTarget (recursive force : Bool) (current : Text × FlatFs) (target : Text) : Text × FlatFs :=
  let (output,flat) := current
  let parts := flat.resolve target
  let complain := fun reason => (if force = false ∧ output = [] then VfsState.quoted "rm" "cannot remove" reason target else output,flat)
  if parts = [] then (output ++ "rm: it is dangerous to operate recursively on '/'\r\n".toList,flat) else
  match flat.entries parts.dropLast,flat.entries parts with
  | some (.dir _),some (.dir _) => if recursive then (output,flat.put parts none) else complain "Is a directory"
  | some (.dir _),some (.file _) => (output,flat.put parts none)
  | some (.dir _),none => complain "No such file or directory"
  | _,_ => (output,flat)

def rm (flat : FlatFs) (args : Text) : Text × FlatFs :=
  let flags := args.splitWhitespace.filter VirtualFileSystem.isFlag
  let force := flags.any (fun token => token.contains 'f')
  let targets := VirtualFileSystem.operands args
  if targets = [] then (if force then [] else "rm: missing operand\r\n".toList,flat)
  else targets.foldl (rmTarget (flags.any (fun token => token.contains 'r' || token.contains 'R')) force) ([],flat)

def writeFile (flat : FlatFs) (target content : Text) (append : Bool) : Text × FlatFs :=
  let parts := flat.resolve target
  if parts = [] then ("bash: ".toList ++ target ++ ": Is a directory\r\n".toList,flat) else
  match flat.entries parts.dropLast,flat.entries parts with
  | some (.dir _),some (.file node) => ([],flat.put parts (some
      (if append then .file {node with content := node.content ++ content} else newLook content)))
  | some (.dir _),_ => ([],flat.put parts (some (newLook content)))
  | _,_ => ([],flat)

noncomputable def run (view : View) (lowerRoot : Option Path) (flat : FlatFs) : VfsCommand → Text × FlatFs
  | .pwd => ((if flat.currentPath = [] then "/".toList else VirtualFileSystem.pathText flat.currentPath) ++ Text.crlf,flat)
  | .cd arg => flat.cd view lowerRoot arg
  | .ls args => (flat.ls view lowerRoot args,flat)
  | .cat args => (flat.cat view lowerRoot args,flat)
  | .mkdir args => flat.mkdir args
  | .touch args => flat.touch args
  | .rm args => flat.rm args
  | .writeFile target content append => flat.writeFile target content append

end FlatFs

-- The map that a tree stands for.
def flat (vfs : VirtualFileSystem) : FlatFs := ⟨vfs.currentPath,lookAt vfs.root⟩

section Tree

theorem made_there {entries : Path → Option Look} {held : Look} (there : entries path = some held) :
    made entries parts path = some held := by
  rw [made,if_neg (fun makes => by cases makes.missing.symm.trans there),there]

theorem made_congr {entries others : Path → Option Look} {parts path rest deeper : Path} (makes : Makes entries parts path ↔ Makes others rest deeper)
    (same : entries path = others deeper) : made entries parts path = made others rest deeper := by
  unfold made
  by_cases given : Makes entries parts path
  · rw [if_pos given,if_pos (makes.mp given)]
  · rw [if_neg given,if_neg (fun other => given (makes.mpr other)),same]

def nodeEntries (node : Option FsNode) (path : Path) : Option Look := (node.bind (fun node => below node path)).map look

theorem dir_entries (perms : Text) (children : Children) (part : Text) (path : Path) :
    nodeEntries (some (.dir perms children)) (part :: path) = nodeEntries (children.get part) path := rfl

theorem made_below (perms : Text) (children : Children) (part : Text) (parts path : Path) :
    made (nodeEntries (some (.dir perms children))) (part :: parts) (part :: path) = made (nodeEntries (children.get part)) parts path := by
  refine made_congr ⟨?_,?_⟩ rfl
  · rintro ⟨onWay,missing,free⟩
    exact ⟨(List.cons_prefix_cons.mp onWay).2,missing,fun early inside => free (part :: early) (List.cons_prefix_cons.mpr ⟨rfl,inside⟩)⟩
  · rintro ⟨onWay,missing,free⟩
    refine ⟨List.cons_prefix_cons.mpr ⟨rfl,onWay⟩,missing,?_⟩
    intro early inside
    cases early with
    | nil =>
      rintro ⟨node,same⟩
      cases same
    | cons first early =>
      obtain ⟨rfl,inner⟩ := List.cons_prefix_cons.mp inside
      exact free early inner

-- Where there is nothing yet, an empty directory is made first.
theorem made_free (parts path : Path) :
    made (nodeEntries (some (.dir "drwxr-xr-x".toList []))) parts path = made (nodeEntries none) parts path := by
  have nothing : ∀ early, ¬ IsFile (nodeEntries none early) := fun early => by rintro ⟨node,same⟩; cases same
  cases path with
  | nil =>
    have there : nodeEntries (some (.dir "drwxr-xr-x".toList [])) [] = some dirLook := rfl
    rw [made_there there,made,if_pos ⟨List.nil_prefix,rfl,fun early _ => nothing early⟩]
  | cons part rest =>
    refine made_congr ⟨fun makes => ⟨makes.onWay,rfl,fun early _ => nothing early⟩,fun makes => ⟨makes.onWay,rfl,?_⟩⟩ rfl
    intro early inside
    cases early with
    | nil =>
      rintro ⟨node,same⟩
      cases same
    | cons first early => exact nothing early

-- The loop of `mkdir -p`, on the nodes of the tree.
theorem nodeEntries_makeDirs (root : Children) (perms : Text) (parts path : Path) :
    nodeEntries (some (.dir perms (root.makeDirs parts))) path = made (nodeEntries (some (.dir perms root))) parts path := by
  induction parts generalizing root perms path with
  | nil =>
    rw [made,if_neg]
    · rfl
    · rintro ⟨inside,missing,_⟩
      rw [List.prefix_nil.mp inside] at missing
      cases missing
  | cons first later ih =>
    cases path with
    | nil => exact (made_there rfl).symm
    | cons part rest =>
      by_cases same : part = first
      · subst same
        rw [dir_entries,made_below,Children.makeDirs]
        split
        · rename_i free
          rw [insert_get_split,if_pos rfl,free,ih,made_free]
        · rename_i inner deeper held
          rw [insert_get_split,if_pos rfl,held,ih]
        · rename_i node held
          rw [held,made,if_neg]
          exact fun makes => makes.free [] List.nil_prefix ⟨node,rfl⟩
      · rw [made,if_neg (fun makes => same (List.cons_prefix_cons.mp makes.onWay).1),dir_entries,dir_entries,Children.makeDirs]
        split
        · rw [insert_get_split,if_neg same]
        · rw [insert_get_split,if_neg same]
        · rfl

theorem lookAt_made (root : Children) (parts : Path) : lookAt (root.makeDirs parts) = made (lookAt root) parts := by
  have entries : ∀ root : Children, lookAt root = nodeEntries (some (rootNode root)) := by
    intro root
    funext path
    rw [lookAt,getNodeSafe_below]
    rfl
  rw [entries,entries]
  funext path
  exact nodeEntries_makeDirs root _ parts path

end Tree

section Commands
variable {σ : Type} {fs : HostFs σ} {lowerRoot : Option Path} {host : σ}

-- A session without a writable layer: nothing it does reaches the disk.
structure Bare (lowerRoot : Option Path) (host : σ) (state : VfsState σ) : Prop where
  unmounted : state.vfs.mountRoot = none
  lower : state.vfs.lowerRoot = lowerRoot
  kept : state.host = host
  unique : unique state.vfs.root = true

-- A command that has been run on the tree and on the map.
structure Agrees (lowerRoot : Option Path) (host : σ) (result : Text × VfsState σ) (mapped : Text × FlatFs) : Prop where
  bare : Bare lowerRoot host result.2
  same : (result.1,flat result.2.vfs) = mapped

theorem Bare.upperPath (bare : Bare lowerRoot host state) (parts : Path) : state.vfs.resolveUpperPath parts = none := by
  rw [VirtualFileSystem.resolveUpperPath,bare.unmounted]
  rfl

theorem Bare.agrees (bare : Bare lowerRoot host state) (output : Text) :
    Agrees lowerRoot host (output,state) (output,flat state.vfs) := ⟨bare,rfl⟩

-- What `get_dir_mut` finds for the parent of a path, in the tree and in the map.
inductive Parent (state : VfsState σ) (parts : Path) : Prop where
  | held (children : Children) (perms : Text) : state.parentDir parts = some children →
      (flat state.vfs).entries parts.dropLast = some (.dir perms) →
      (flat state.vfs).entries parts = (children.get (VfsState.baseName parts)).map look → Parent state parts
  | missing : state.parentDir parts = none → (flat state.vfs).entries parts.dropLast = none → Parent state parts
  | file (node : FileNode) : state.parentDir parts = none → (flat state.vfs).entries parts.dropLast = some (.file node) →
      Parent state parts

theorem parent_cases (state : VfsState σ) (named : parts ≠ []) : Parent state parts := by
  have reached := getDir_below state.vfs.root parts.dropLast
  have there : (flat state.vfs).entries parts.dropLast = (below (rootNode state.vfs.root) parts.dropLast).map look :=
    congrArg (Option.map look) (getNodeSafe_below _ _)
  cases found : below (rootNode state.vfs.root) parts.dropLast with
  | none =>
    rw [found] at reached there
    exact .missing reached there
  | some node =>
    rw [found] at reached there
    cases node with
    | file node => exact .file node reached there
    | dir perms children =>
      refine .held children perms reached there ((congrArg (Option.map look) (getNodeSafe_parent _ named)).trans ?_)
      rw [reached]
      rfl

theorem Bare.setParent (bare : Bare lowerRoot host state) (found : state.parentDir parts = some children)
    (sound : VfsListing.unique children = true → VfsListing.unique changed = true) :
    Bare lowerRoot host (state.setParent parts changed) := by
  refine ⟨bare.unmounted,bare.lower,bare.kept,?_⟩
  exact unique_putDir _ _ _ bare.unique (sound (unique_getDir _ _ bare.unique found))

theorem Bare.putLeaf (bare : Bare lowerRoot host state) (named : parts ≠ []) (found : state.parentDir parts = some children)
    (leaf : FsNode) (bottom : ∀ part rest, below leaf (part :: rest) = none) (sound : nodeUnique leaf = true) (output : Text) :
    Agrees lowerRoot host (output,state.setParent parts (children.insert (VfsState.baseName parts) leaf))
      (output,(flat state.vfs).put parts (some (look leaf))) := by
  refine ⟨bare.setParent found (fun valid => unique_insert _ _ _ valid sound),?_⟩
  have changed := insertLeaf_lookAt state named found bottom
  rw [FlatFs.put,flat]
  congr 2
  exact funext changed

theorem Bare.drop (bare : Bare lowerRoot host state) (named : parts ≠ []) (found : state.parentDir parts = some children)
    (output : Text) : Agrees lowerRoot host (output,state.setParent parts (children.remove (VfsState.baseName parts)))
      (output,(flat state.vfs).put parts none) := by
  refine ⟨bare.setParent found (fun valid => unique_remove _ _ valid),?_⟩
  have changed := setParent_lookAt state named found (remove_replaces children _)
  rw [FlatFs.put,flat]
  congr 2
  funext path
  rw [ite_self]
  exact changed path

theorem Bare.makeDirs (bare : Bare lowerRoot host state) (parts : Path) (output : Text) :
    Agrees lowerRoot host (output,state.inMemory (fun root => root.makeDirs parts)) (output,(flat state.vfs).makeDirs parts) := by
  refine ⟨⟨bare.unmounted,bare.lower,bare.kept,unique_makeDirs _ _ bare.unique⟩,?_⟩
  rw [FlatFs.makeDirs,flat]
  congr 2
  exact lookAt_made _ _

theorem mkdirTarget_agrees (bare : Bare lowerRoot host state) (parents : Bool) (output target : Text) :
    Agrees lowerRoot host (VfsState.mkdirTarget fs parents (output,state) target)
      (FlatFs.mkdirTarget parents (output,flat state.vfs) target) := by
  have resolved : (flat state.vfs).resolve target = state.vfs.resolve target := rfl
  unfold VfsState.mkdirTarget FlatFs.mkdirTarget
  dsimp only
  rw [resolved,bare.upperPath]
  by_cases named : state.vfs.resolve target = []
  · rw [if_pos named,if_pos named]
    exact bare.agrees _
  · rw [if_neg named,if_neg named]
    dsimp only
    unfold VfsState.mkdirMemory
    cases parents with
    | true => exact bare.makeDirs _ output
    | false =>
      rw [if_neg Bool.false_ne_true,if_neg Bool.false_ne_true]
      cases parent_cases state named with
      | held children perms reached there here =>
        rw [reached,there,here]
        dsimp only
        cases children.get (VfsState.baseName (state.vfs.resolve target)) with
        | none => exact bare.putLeaf named reached newDir (fun _ _ => rfl) rfl output
        | some node => exact bare.agrees _
      | missing reached there =>
        rw [reached,there]
        exact bare.agrees _
      | file node reached there =>
        rw [reached,there]
        exact bare.agrees _

theorem Bare.onUpper (bare : Bare lowerRoot host state) (parts : Path) (act : Path → VfsState σ) :
    state.onUpper parts act = state := by
  rw [VfsState.onUpper,bare.upperPath]

theorem touchTarget_agrees (bare : Bare lowerRoot host state) (output target : Text) :
    Agrees lowerRoot host (output,VfsState.touchTarget fs state target) (output,(flat state.vfs).touchTarget target) := by
  have resolved : (flat state.vfs).resolve target = state.vfs.resolve target := rfl
  unfold VfsState.touchTarget FlatFs.touchTarget
  dsimp only
  rw [resolved,bare.onUpper]
  by_cases named : state.vfs.resolve target = []
  · rw [if_pos named,if_pos named]
    exact bare.agrees output
  · rw [if_neg named,if_neg named]
    cases parent_cases state named with
    | held children perms reached there here =>
      rw [reached,there,here]
      dsimp only
      cases children.get (VfsState.baseName (state.vfs.resolve target)) with
      | none => exact bare.putLeaf named reached (newFile []) (fun _ _ => rfl) rfl output
      | some node => exact bare.agrees output
    | missing reached there =>
      rw [reached,there]
      exact bare.agrees output
    | file node reached there =>
      rw [reached,there]
      exact bare.agrees output

theorem rmTarget_agrees (bare : Bare lowerRoot host state) (recursive force : Bool) (output target : Text) :
    Agrees lowerRoot host (VfsState.rmTarget fs recursive force (output,state) target)
      (FlatFs.rmTarget recursive force (output,flat state.vfs) target) := by
  have resolved : (flat state.vfs).resolve target = state.vfs.resolve target := rfl
  unfold VfsState.rmTarget FlatFs.rmTarget
  dsimp only
  rw [resolved,bare.upperPath]
  by_cases named : state.vfs.resolve target = []
  · rw [if_pos named,if_pos named]
    exact bare.agrees _
  · rw [if_neg named,if_neg named]
    dsimp only
    unfold VfsState.rmMemory
    cases parent_cases state named with
    | held children perms reached there here =>
      rw [reached,there,here]
      dsimp only
      rcases children.get (VfsState.baseName (state.vfs.resolve target)) with _ | (node | ⟨inner,deeper⟩)
      · exact bare.agrees _
      · exact bare.drop named reached output
      · cases recursive with
        | true => exact bare.drop named reached output
        | false => exact bare.agrees _
    | missing reached there =>
      rw [reached,there]
      exact bare.agrees output
    | file node reached there =>
      rw [reached,there]
      exact bare.agrees output

theorem writeFile_agrees (bare : Bare lowerRoot host state) (target content : Text) (append : Bool) :
    Agrees lowerRoot host (VfsState.writeFile fs state target content append) ((flat state.vfs).writeFile target content append) := by
  have resolved : (flat state.vfs).resolve target = state.vfs.resolve target := rfl
  unfold VfsState.writeFile FlatFs.writeFile
  dsimp only
  rw [resolved,bare.onUpper]
  by_cases named : state.vfs.resolve target = []
  · rw [if_pos named,if_pos named]
    exact bare.agrees _
  · rw [if_neg named,if_neg named]
    cases parent_cases state named with
    | held children perms reached there here =>
      rw [reached,there,here]
      dsimp only
      rcases children.get (VfsState.baseName (state.vfs.resolve target)) with _ | (node | ⟨inner,deeper⟩)
      · cases append <;> exact bare.putLeaf named reached (newFile content) (fun _ _ => rfl) rfl []
      · cases append with
        | true => exact bare.putLeaf named reached (.file {node with content := node.content ++ content}) (fun _ _ => rfl) rfl []
        | false => exact bare.putLeaf named reached (newFile content) (fun _ _ => rfl) rfl []
      · cases append <;> exact bare.putLeaf named reached (newFile content) (fun _ _ => rfl) rfl []
    | missing reached there =>
      rw [reached,there]
      exact bare.agrees []
    | file node reached there =>
      rw [reached,there]
      exact bare.agrees []

theorem Bare.lowerPath (bare : Bare lowerRoot host state) (parts : Path) :
    state.vfs.resolveLowerPath parts = FlatFs.lowerPath lowerRoot parts := by
  rw [VirtualFileSystem.resolveLowerPath,bare.lower]
  rfl

theorem cd_agrees (bare : Bare lowerRoot host state) (arg : Text) :
    Agrees lowerRoot host (state.run fs (.cd arg)) ((flat state.vfs).cd (fs.view host) lowerRoot arg) := by
  obtain rfl := bare.kept
  have moved : ∀ (output : Text) (parts : Path), Agrees lowerRoot state.host (output,{state with vfs := {state.vfs with currentPath := parts}})
      (output,{flat state.vfs with currentPath := parts}) :=
    fun output parts => ⟨⟨bare.unmounted,bare.lower,bare.kept,bare.unique⟩,rfl⟩
  have resolved : (flat state.vfs).resolve arg.trim = state.vfs.resolve arg.trim := rfl
  unfold VfsState.run VirtualFileSystem.cd FlatFs.cd
  dsimp only
  rw [resolved,bare.upperPath,bare.lowerPath]
  generalize (if arg.trim = [] then ["root".toList] else state.vfs.resolve arg.trim) = parts
  have there : (flat state.vfs).entries parts = (state.vfs.root.getNodeSafe parts).map look := rfl
  by_cases named : parts = []
  · rw [if_pos named,if_pos named]
    exact moved [] parts
  · rw [if_neg named,if_neg named,there]
    rcases VirtualFileSystem.layerEntry (fs.view state.host) (FlatFs.lowerPath lowerRoot parts) with _ | (_ | content)
    · rcases state.vfs.root.getNodeSafe parts with _ | (node | ⟨perms,children⟩)
      · exact bare.agrees _
      · exact bare.agrees _
      · exact moved [] parts
    · exact moved [] parts
    · exact bare.agrees _

theorem Bare.rows (bare : Bare lowerRoot host state) (view : View) (parts : Path) :
    tableRows (VirtualFileSystem.lsLayer view (FlatFs.lowerPath lowerRoot parts) (VirtualFileSystem.lsMemory state.vfs.root parts)) =
      listing ((flat state.vfs).row view lowerRoot parts) := by
  refine tableRows_of _ fun name => ?_
  rw [lsLayer_lookup,lsMemory_lookup _ bare.unique]
  rfl

theorem Bare.rendered (bare : Bare lowerRoot host state) (view : View) (long showHidden : Bool) (parts : Path) (complaint : Text) :
    let table := VirtualFileSystem.lsLayer view (FlatFs.lowerPath lowerRoot parts) (VirtualFileSystem.lsMemory state.vfs.root parts)
    let rows := listing ((flat state.vfs).row view lowerRoot parts)
    (if table.len = 0 ∧ parts ≠ [] ∧ (state.vfs.root.getNodeSafe parts).isNone then complaint
      else VirtualFileSystem.lsRender long showHidden table) =
    (if rows = [] ∧ parts ≠ [] ∧ (flat state.vfs).entries parts = none then complaint else renderRows long showHidden rows) := by
  have rows := bare.rows view parts
  have missing : (state.vfs.root.getNodeSafe parts).isNone = true ↔ (flat state.vfs).entries parts = none := by
    change _ ↔ (state.vfs.root.getNodeSafe parts).map look = none
    rw [Option.isNone_iff_eq_none,Option.map_eq_none_iff]
  refine if_congr ?_ rfl ?_
  · rw [tableRows_empty,rows,missing]
  · rw [lsRender_rows,rows]

theorem lsTarget_agrees (bare : Bare lowerRoot host state) (view : View) (long showHidden : Bool) (parts : Path) :
    VirtualFileSystem.lsTarget view state.vfs long showHidden parts =
      (flat state.vfs).lsTarget view lowerRoot long showHidden parts := by
  unfold VirtualFileSystem.lsTarget FlatFs.lsTarget
  rw [bare.upperPath,bare.lowerPath]
  have rendered := bare.rendered view long showHidden parts
  rcases VirtualFileSystem.layerEntry view (FlatFs.lowerPath lowerRoot parts) with _ | (_ | content)
  · exact rendered _
  · exact rendered _
  · rfl

theorem ls_agrees (bare : Bare lowerRoot host state) (view : View) (args : Text) :
    VirtualFileSystem.ls state.vfs view args = (flat state.vfs).ls view lowerRoot args :=
  List.flatMap_congr fun parts _ => lsTarget_agrees bare view _ _ parts

theorem catTarget_agrees (bare : Bare lowerRoot host state) (view : View) (target : Text) :
    VirtualFileSystem.catTarget view state.vfs target = (flat state.vfs).catTarget view lowerRoot target := by
  have resolved : (flat state.vfs).resolve target = state.vfs.resolve target := rfl
  unfold VirtualFileSystem.catTarget FlatFs.catTarget
  dsimp only
  rw [resolved,bare.upperPath,bare.lowerPath]
  generalize state.vfs.resolve target = parts
  have there : (flat state.vfs).entries parts = (state.vfs.root.getNodeSafe parts).map look := rfl
  rw [there]
  rcases VirtualFileSystem.catLayer view (FlatFs.lowerPath lowerRoot parts) target with _ | shown
  · rcases state.vfs.root.getNodeSafe parts with _ | (node | ⟨perms,children⟩) <;> rfl
  · rfl

theorem cat_agrees (bare : Bare lowerRoot host state) (view : View) (args : Text) :
    VirtualFileSystem.cat state.vfs view args = (flat state.vfs).cat view lowerRoot args :=
  List.flatMap_congr fun target _ => catTarget_agrees bare view target

-- The operands of a command, one after the other.
theorem operands_agree {step : Text × VfsState σ → Text → Text × VfsState σ} {mapped : Text × FlatFs → Text → Text × FlatFs}
    (each : ∀ state output target, Bare lowerRoot host state →
      Agrees lowerRoot host (step (output,state) target) (mapped (output,flat state.vfs) target))
    (targets : List Text) (bare : Bare lowerRoot host state) (output : Text) :
    Agrees lowerRoot host (targets.foldl step (output,state)) (targets.foldl mapped (output,flat state.vfs)) := by
  refine List.foldl_rel (r := Agrees lowerRoot host) (bare.agrees output) ?_
  rintro target _ ⟨output,state⟩ _ ⟨bare,rfl⟩
  exact each state output target bare

theorem run_agrees (bare : Bare lowerRoot host state) (command : VfsCommand) :
    Agrees lowerRoot host (state.run fs command) ((flat state.vfs).run (fs.view host) lowerRoot command) := by
  have kept := bare.kept
  cases command with
  | pwd => exact bare.agrees _
  | cd arg => exact cd_agrees bare arg
  | ls args => exact ⟨bare,by rw [VfsState.run,kept,ls_agrees bare]; rfl⟩
  | cat args => exact ⟨bare,by rw [VfsState.run,kept,cat_agrees bare]; rfl⟩
  | mkdir args =>
    unfold VfsState.run VfsState.mkdir FlatFs.run FlatFs.mkdir
    dsimp only
    split
    · exact bare.agrees _
    · exact operands_agree (fun state output target bare => mkdirTarget_agrees bare _ output target) _ bare []
  | touch args =>
    unfold VfsState.run VfsState.touch FlatFs.run FlatFs.touch
    dsimp only
    split
    · exact bare.agrees _
    · refine List.foldl_rel (r := fun state mapped => Agrees lowerRoot host ([],state) ([],mapped)) (bare.agrees []) ?_
      rintro target _ state mapped ⟨bare,same⟩
      cases same
      exact touchTarget_agrees bare [] target
  | rm args =>
    unfold VfsState.run VfsState.rm FlatFs.run FlatFs.rm
    dsimp only
    split
    · exact bare.agrees _
    · exact operands_agree (fun state output target bare => rmTarget_agrees bare _ _ output target) _ bare []
  | writeFile target content append => exact writeFile_agrees bare target content append

end Commands

-- A session without a writable layer cannot be told from the map above the golden
-- image, and leaves its host as it was.
theorem bare_session_is_a_map {σ : Type} (fs : HostFs σ) (lowerRoot : Option Path) (host : σ) (commands : List VfsCommand) :
    let began : VfsState σ := ⟨VirtualFileSystem.withRoots none lowerRoot,host⟩
    let done := Transition.answers (VfsState.run fs) began commands
    let mapped := Transition.answers (FlatFs.run (fs.view host) lowerRoot) (flat began.vfs) commands
    done.1 = mapped.1 ∧ flat done.2.vfs = mapped.2 ∧ done.2.host = host := by
  have bare : Bare lowerRoot host (⟨VirtualFileSystem.withRoots none lowerRoot,host⟩ : VfsState σ) :=
    ⟨rfl,rfl,rfl,default_unique⟩
  have each : ∀ (state : VfsState σ) (mapped : FlatFs) (command : VfsCommand),
      Bare lowerRoot host state ∧ flat state.vfs = mapped →
        (state.run fs command).1 = (mapped.run (fs.view host) lowerRoot command).1 ∧
        Bare lowerRoot host (state.run fs command).2 ∧
          flat (state.run fs command).2.vfs = (mapped.run (fs.view host) lowerRoot command).2 := by
    rintro state _ command ⟨bare,rfl⟩
    have agrees : Agrees lowerRoot host (state.run fs command) _ := run_agrees bare command
    obtain ⟨kept,same⟩ := agrees
    exact ⟨congrArg Prod.fst same,kept,congrArg Prod.snd same⟩
  obtain ⟨said,ended,same⟩ := Transition.answers_simulate id each commands ⟨bare,rfl⟩
  rw [List.map_id] at said
  exact ⟨said,same,ended.kept⟩

end AegisHoneypot.VfsMap
