import AegisHoneypot.VfsNode
import AegisHoneypot.Library.FileTree

namespace AegisHoneypot.Vfs
open VfsNode FileTree Utf8Text

-- `mountRoot` is the writable layer of the session and `lowerRoot` the golden
-- image; without a sandbox the session has no writable layer.
structure VirtualFileSystem where
  currentPath : Path
  mountRoot : Option Path
  lowerRoot : Option Path
  root : Children

namespace VirtualFileSystem

def withRoots (mountRoot lowerRoot : Option Path) : VirtualFileSystem :=
  ⟨["root".toList],mountRoot,lowerRoot,buildDefaultFs⟩

def pathText (parts : Path) : Text := '/' :: Text.join "/" parts

def currentPathStr (vfs : VirtualFileSystem) : Text :=
  if vfs.currentPath = [] then "/".toList else pathText vfs.currentPath

-- One component of a path: empty and `.` change nothing, `..` goes up.
def pushComponent (parts : Path) (component : Text) : Path :=
  if component = [] ∨ component = ".".toList then parts
  else if component = "..".toList then parts.dropLast
  else parts ++ [component]

def resolve (vfs : VirtualFileSystem) (path : Text) : Path :=
  let path := path.trim
  if path = [] then vfs.currentPath
  else if path.startsWith "/" then (path.split '/').foldl pushComponent []
  else if path.startsWith "~" then
    let rest := (path.trimStartMatches '~').trimStartMatches '/'
    if rest = [] then ["root".toList] else (rest.split '/').foldl pushComponent ["root".toList]
  else (path.split '/').foldl pushComponent vfs.currentPath

def skipped (part : Text) : Bool :=
  part == [] || part == ".".toList || part == "..".toList || part.contains '/'

def resolveDiskPathBase (base parts : Path) : Path := base ++ parts.filter (fun part => !skipped part)

def resolveUpperPath (vfs : VirtualFileSystem) (parts : Path) : Option Path :=
  vfs.mountRoot.map (fun base => resolveDiskPathBase base parts)

def resolveLowerPath (vfs : VirtualFileSystem) (parts : Path) : Option Path :=
  vfs.lowerRoot.map (fun base => resolveDiskPathBase base parts)

def pwd (vfs : VirtualFileSystem) : Text := vfs.currentPathStr ++ Text.crlf

def layerEntry (view : View) (place : Option Path) : Option Entry := place.bind view.entry

def cd (vfs : VirtualFileSystem) (view : View) (arg : Text) : Text × VirtualFileSystem :=
  let arg := arg.trim
  let parts := if arg = [] then ["root".toList] else vfs.resolve arg
  let entered := ([],{vfs with currentPath := parts})
  let notDirectory := ("bash: cd: ".toList ++ arg ++ ": Not a directory\r\n".toList,vfs)
  if parts = [] then entered else
  match layerEntry view (vfs.resolveUpperPath parts) with
  | some .dir => entered
  | some (.file _) => notDirectory
  | none =>
    match layerEntry view (vfs.resolveLowerPath parts) with
    | some .dir => entered
    | some (.file _) => notDirectory
    | none =>
      match vfs.root.getNodeSafe parts with
      | some (.dir _ _) => entered
      | some (.file _) => notDirectory
      | none => ("bash: cd: ".toList ++ arg ++ ": No such file or directory\r\n".toList,vfs)

structure LsEntry where
  perms : Text
  size : Nat
  isDir : Bool
  deriving DecidableEq, Repr

def lsFile (long : Bool) (parts : Path) (content : Bytes) : Text :=
  let name := parts.getLast?.getD "?".toList
  if long then "-rw-r--r-- 1 root root ".toList ++ Text.padLeft 5 content.length ++
    " Aug 27 18:00 ".toList ++ name ++ Text.crlf
  else name ++ Text.crlf

def lsMemory (root : Children) (parts : Path) : KeyTable Text LsEntry :=
  match root.getNodeSafe parts with
  | some (.dir _ children) => children.foldl (fun table child => table.insert child.1 (match child.2 with
    | .file node => ⟨node.perms,(encode node.content).length,false⟩
    | .dir perms _ => ⟨perms,4096,true⟩)) ∅
  | _ => ∅

def lsLayer (view : View) (place : Option Path) (table : KeyTable Text LsEntry) : KeyTable Text LsEntry :=
  match place with
  | none => table
  | some path => if view.entry path == some .dir then
      (view.names path).foldl (fun table name => table.insert name (match view.entry (path ++ [name]) with
        | some .dir => ⟨"drwxr-xr-x".toList,4096,true⟩
        | some (.file content) => ⟨"-rw-r--r--".toList,content.length,false⟩
        | none => ⟨"-rw-r--r--".toList,0,false⟩)) table
    else table

-- Names are ordered as strings of bytes are, which for UTF-8 is the order of
-- their scalar values.
def nameLe : Text → Text → Bool
  | [],_ => true
  | _ :: _,[] => false
  | c :: left,d :: right => c.toNat < d.toNat || (c == d && nameLe left right)

def dotEntries : List (Text × LsEntry) :=
  [(".".toList,⟨"drwxr-xr-x".toList,4096,true⟩),("..".toList,⟨"drwxr-xr-x".toList,4096,true⟩)]

def lsRender (long showHidden : Bool) (table : KeyTable Text LsEntry) : Text :=
  let sorted := table.keys.mergeSort nameLe
  let listed := (sorted.filter (fun name => showHidden || !name.startsWith ".")).filterMap
    (fun name => (table.lookup name).map (fun entry => (name,entry)))
  let final := (if showHidden then dotEntries else []) ++ listed
  if long then "total ".toList ++ (toString (final.length*4)).toList ++ Text.crlf ++
    final.flatMap (fun row => row.2.perms ++ " ".toList ++ (if row.2.isDir then "2".toList else "1".toList) ++
      " root root ".toList ++ Text.padLeft 5 row.2.size ++ " Aug 27 18:00 ".toList ++ row.1 ++ Text.crlf)
  else if final = [] then [] else Text.join "  " (final.map Prod.fst) ++ Text.crlf

def lsTarget (view : View) (vfs : VirtualFileSystem) (long showHidden : Bool) (parts : Path) : Text :=
  match layerEntry view (vfs.resolveUpperPath parts),layerEntry view (vfs.resolveLowerPath parts) with
  | some (.file content),_ => lsFile long parts content
  | _,some (.file content) => lsFile long parts content
  | _,_ =>
    let table := lsLayer view (vfs.resolveUpperPath parts)
      (lsLayer view (vfs.resolveLowerPath parts) (lsMemory vfs.root parts))
    if table.len = 0 ∧ parts ≠ [] ∧ (vfs.root.getNodeSafe parts).isNone then
      "ls: cannot access '".toList ++ pathText parts ++ "': No such file or directory\r\n".toList
    else lsRender long showHidden table

def isFlag (token : Text) : Bool := token.startsWith "-"

def operands (args : Text) : List Text := args.splitWhitespace.filter (fun token => !isFlag token)

def ls (vfs : VirtualFileSystem) (view : View) (args : Text) : Text :=
  let flags := (args.splitWhitespace.filter isFlag).flatMap (fun token => token.drop 1)
  let showHidden := flags.contains 'a' || flags.contains 'A'
  let long := flags.contains 'l'
  let targets := operands args
  let places := if targets = [] then [vfs.currentPath] else targets.map vfs.resolve
  places.flatMap (lsTarget view vfs long showHidden)

def catContent (content : Text) : Text :=
  let shown := content.unixLines.crlfLines
  if Text.crlf.isSuffixOf shown then shown else shown ++ Text.crlf

def catLayer (view : View) (place : Option Path) (target : Text) : Option Text :=
  match layerEntry view place with
  | some .dir => some ("cat: ".toList ++ target ++ ": Is a directory\r\n".toList)
  | some (.file content) => (fromUtf8 content).map catContent
  | none => none

-- A file that cannot be read as text falls through to the next layer.
def catTarget (view : View) (vfs : VirtualFileSystem) (target : Text) : Text :=
  let parts := vfs.resolve target
  if target.containsText "shadow" then "cat: ".toList ++ target ++ ": Permission denied\r\n".toList else
  match catLayer view (vfs.resolveUpperPath parts) target with
  | some shown => shown
  | none =>
    match catLayer view (vfs.resolveLowerPath parts) target with
    | some shown => shown
    | none =>
      match vfs.root.getNodeSafe parts with
      | none => "cat: ".toList ++ target ++ ": No such file or directory\r\n".toList
      | some (.dir _ _) => "cat: ".toList ++ target ++ ": Is a directory\r\n".toList
      | some (.file node) => if node.permissionDenied then
          "cat: ".toList ++ target ++ ": Permission denied\r\n".toList
        else catContent node.content

def cat (vfs : VirtualFileSystem) (view : View) (args : Text) : Text :=
  (operands args).flatMap (catTarget view vfs)

end VirtualFileSystem

structure VfsState (σ : Type) where
  vfs : VirtualFileSystem
  host : σ

namespace VfsState
variable {σ : Type} (fs : HostFs σ)

def apply (state : VfsState σ) (op : DiskOp) : VfsState σ := {state with host := fs.apply state.host op}

def inMemory (state : VfsState σ) (update : Children → Children) : VfsState σ :=
  {state with vfs := {state.vfs with root := update state.vfs.root}}

def parentDir (state : VfsState σ) (parts : Path) : Option Children := state.vfs.root.getDir parts.dropLast

def setParent (state : VfsState σ) (parts : Path) (changed : Children) : VfsState σ :=
  state.inMemory (fun root => root.putDir parts.dropLast changed)

def baseName (parts : Path) : Text := parts.getLast?.getD []

-- `create_dir_all` on the parent of a path; only the root has no parent.
def createParents (state : VfsState σ) (path : Path) : VfsState σ :=
  if path = [] then state else state.apply fs (.createDirAll path.dropLast)

def onUpper (state : VfsState σ) (parts : Path) (act : Path → VfsState σ) : VfsState σ :=
  match state.vfs.resolveUpperPath parts with
  | none => state
  | some upper => act upper

def quoted (command target reason : String) (name : Text) : Text :=
  command.toList ++ ": ".toList ++ target.toList ++ " '".toList ++ name ++ "': ".toList ++ reason.toList ++ Text.crlf

def mkdirMemory (parents : Bool) (target : Text) (parts : Path) (output : Text) (state : VfsState σ) :
    Text × VfsState σ :=
  if parents then (output,state.inMemory (fun root => root.makeDirs parts)) else
  match state.parentDir parts with
  | some children =>
    if (children.get (baseName parts)).isSome then
      (if output = [] then quoted "mkdir" "cannot create directory" "File exists" target else output,state)
    else (output,state.setParent parts (children.insert (baseName parts) newDir))
  | none =>
    (if output = [] then quoted "mkdir" "cannot create directory" "No such file or directory" target else output,state)

-- Without `-p` an existing path ends the target before the tree is touched.
def mkdirTarget (parents : Bool) (current : Text × VfsState σ) (target : Text) : Text × VfsState σ :=
  let (output,state) := current
  let parts := state.vfs.resolve target
  if parts = [] then (output ++ "mkdir: cannot create directory '/': File exists\r\n".toList,state) else
  match state.vfs.resolveUpperPath parts with
  | none => mkdirMemory parents target parts output state
  | some upper =>
    if parents then mkdirMemory parents target parts output (state.apply fs (.createDirAll upper))
    else if ((fs.view state.host).entry upper).isSome then
      (output ++ quoted "mkdir" "cannot create directory" "File exists" target,state)
    else if upper = [] then mkdirMemory parents target parts output state
    else mkdirMemory parents target parts output ((state.createParents fs upper).apply fs (.createDir upper))

def mkdir (state : VfsState σ) (args : Text) : Text × VfsState σ :=
  let parents := args.splitWhitespace.any (· == "-p".toList)
  let targets := VirtualFileSystem.operands args
  if targets = [] then ("mkdir: missing operand\r\n".toList,state)
  else targets.foldl (mkdirTarget fs parents) ([],state)

def touchTarget (state : VfsState σ) (target : Text) : VfsState σ :=
  let parts := state.vfs.resolve target
  if parts = [] then state else
  let written := state.onUpper parts (fun upper => (state.createParents fs upper).apply fs (.openCreate upper))
  match written.parentDir parts with
  | some children =>
    if (children.get (baseName parts)).isSome then written
    else written.setParent parts (children.insert (baseName parts) (newFile []))
  | none => written

def touch (state : VfsState σ) (args : Text) : Text × VfsState σ :=
  let targets := VirtualFileSystem.operands args
  if targets = [] then ("touch: missing file operand\r\n".toList,state)
  else ([],targets.foldl (touchTarget fs) state)

-- The writable layer of `rm`; no answer means that the target is finished.
def rmDisk (recursive force : Bool) (state : VfsState σ) (upper : Path) : Option (VfsState σ) :=
  match (fs.view state.host).entry upper with
  | some .dir => if recursive then some (state.apply fs (.removeDirAll upper)) else if force then some state else none
  | some (.file _) => some (state.apply fs (.removeFile upper))
  | none => some state

def rmMemory (recursive force : Bool) (target : Text) (parts : Path) (output : Text) (state : VfsState σ) :
    Text × VfsState σ :=
  match state.parentDir parts with
  | none => (output,state)
  | some children =>
    match children.get (baseName parts),recursive with
    | some (.dir _ _),false =>
      (if force = false ∧ output = [] then quoted "rm" "cannot remove" "Is a directory" target else output,state)
    | some _,_ => (output,state.setParent parts (children.remove (baseName parts)))
    | none,_ =>
      (if force = false ∧ output = [] then quoted "rm" "cannot remove" "No such file or directory" target else output,state)

def rmTarget (recursive force : Bool) (current : Text × VfsState σ) (target : Text) : Text × VfsState σ :=
  let (output,state) := current
  let parts := state.vfs.resolve target
  if parts = [] then (output ++ "rm: it is dangerous to operate recursively on '/'\r\n".toList,state) else
  match state.vfs.resolveUpperPath parts with
  | none => rmMemory recursive force target parts output state
  | some upper => match rmDisk fs recursive force state upper with
    | none => (output ++ quoted "rm" "cannot remove" "Is a directory" target,state)
    | some removed => rmMemory recursive force target parts output removed

-- Only tokens that are flags are inspected for `r` and `f`.
def rm (state : VfsState σ) (args : Text) : Text × VfsState σ :=
  let flags := args.splitWhitespace.filter VirtualFileSystem.isFlag
  let recursive := flags.any (fun token => token.contains 'r' || token.contains 'R')
  let force := flags.any (fun token => token.contains 'f')
  let targets := VirtualFileSystem.operands args
  if targets = [] then (if force then [] else "rm: missing operand\r\n".toList,state)
  else targets.foldl (rmTarget fs recursive force) ([],state)

def writeFile (state : VfsState σ) (target content : Text) (append : Bool) : Text × VfsState σ :=
  let parts := state.vfs.resolve target
  if parts = [] then ("bash: ".toList ++ target ++ ": Is a directory\r\n".toList,state) else
  let written := state.onUpper parts (fun upper => (state.createParents fs upper).apply fs
    (if append then .append upper (encode content) else .write upper (encode content)))
  match written.parentDir parts with
  | none => ([],written)
  | some children =>
    let replaced := match append,children.get (baseName parts) with
      | true,some (.file node) => .file {node with content := node.content ++ content}
      | _,_ => newFile content
    ([],written.setParent parts (children.insert (baseName parts) replaced))

end VfsState

inductive VfsCommand where
  | pwd
  | cd (arg : Text)
  | ls (args : Text)
  | cat (args : Text)
  | mkdir (args : Text)
  | touch (args : Text)
  | rm (args : Text)
  | writeFile (target content : Text) (append : Bool)

def VfsState.run (fs : HostFs σ) (state : VfsState σ) : VfsCommand → Text × VfsState σ
  | .pwd => (state.vfs.pwd,state)
  | .cd arg =>
    let answer := state.vfs.cd (fs.view state.host) arg
    (answer.1,{state with vfs := answer.2})
  | .ls args => (state.vfs.ls (fs.view state.host) args,state)
  | .cat args => (state.vfs.cat (fs.view state.host) args,state)
  | .mkdir args => state.mkdir fs args
  | .touch args => state.touch fs args
  | .rm args => state.rm fs args
  | .writeFile target content append => state.writeFile fs target content append

end AegisHoneypot.Vfs
