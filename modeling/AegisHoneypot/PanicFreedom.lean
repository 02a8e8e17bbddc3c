import AegisHoneypot.CommandLists
import AegisHoneypot.SessionInput
import AegisHoneypot.SudoTransparency
import AegisHoneypot.Library.Checked

-- Every command again, with its slices, indices and unwraps as the partial
-- operations they are and its loops and its recursion under a bound.
namespace AegisHoneypot.PanicFreedom
open FileTree Utf8Text VfsNode Vfs Shell Checked CommandLists SudoTransparency

namespace Strict

def parseRedirect (cmd : Text) : Result (Option Redirect) :=
  match find ">>".toList cmd with
  | some pos => do
    let front ← sliceTo pos cmd
    let back ← sliceFrom (pos+2) cmd
    .ok (some ⟨front,true,back⟩)
  | none => match rfind '>' cmd with
    | some pos => if byteAt cmd (pos+1) = some 0x3d then .ok none else do
      let front ← sliceTo pos cmd
      let back ← sliceFrom (pos+1) cmd
      .ok (some ⟨front,false,back⟩)
    | none => .ok none

def echo (args : Text) : Result Text := do
  let text := args.trim
  let shown ← if 2 ≤ len text ∧ (quotedBy '"' text || quotedBy '\'' text) = true then
      (do let stop ← sub (len text) 1
          slice 1 stop text)
    else .ok text
  .ok (shown ++ Text.crlf)

def stripSudo : Nat → Text → Result Text
  | 0,_ => .error .unfinished
  | turns+1,'s' :: 'u' :: 'd' :: 'o' :: rest =>
    if rest = [] then stripSudo turns []
    else if rest.head? = some ' ' then stripSudo turns (Text.trimStart rest)
    else .ok ('s' :: 'u' :: 'd' :: 'o' :: rest)
  | _+1,cmd => .ok cmd

-- `splitn(2, ' ')`
def splitTwo (cmd : Text) : List Text :=
  match cmd.dropWhile (· ≠ ' ') with
  | [] => [cmd.takeWhile (· ≠ ' ')]
  | _ :: rest => [cmd.takeWhile (· ≠ ' '),rest]

def nodeLoop (count : Nat) : Path → Nat → Children → Result (Option FsNode)
  | [],_,_ => .ok none
  | part :: rest,i,children => match children.get part with
    | none => .ok none
    | some node => do
      let last ← sub count 1
      if i = last then .ok (some node) else
      match node with
      | .dir _ inner => nodeLoop count rest (i+1) inner
      | .file _ => .ok none

def getNodeSafe (root : Children) (parts : Path) : Result (Option FsNode) :=
  if parts = [] then .ok (some (.dir "drwxr-xr-x".toList root)) else nodeLoop parts.length parts 0 root

-- `&parts[..parts.len()-1]` and `parts.last().unwrap()`
def parentAndName (parts : Path) : Result (Path × Text) := do
  let stop ← sub parts.length 1
  let parent ← takeTo stop parts
  let name ← unwrap parts.getLast?
  .ok (parent,name)

section Vfs
variable (view : View) (vfs : VirtualFileSystem)

def cd (arg : Text) : Result (Text × VirtualFileSystem) :=
  let arg := arg.trim
  let parts := if arg = [] then ["root".toList] else vfs.resolve arg
  let entered := ([],{vfs with currentPath := parts})
  let notDirectory := ("bash: cd: ".toList ++ arg ++ ": Not a directory\r\n".toList,vfs)
  if parts = [] then .ok entered else
  match VirtualFileSystem.layerEntry view (vfs.resolveUpperPath parts) with
  | some .dir => .ok entered
  | some (.file _) => .ok notDirectory
  | none =>
    match VirtualFileSystem.layerEntry view (vfs.resolveLowerPath parts) with
    | some .dir => .ok entered
    | some (.file _) => .ok notDirectory
    | none => do
      let found ← getNodeSafe vfs.root parts
      .ok (match found with
        | some (.dir _ _) => entered
        | some (.file _) => notDirectory
        | none => ("bash: cd: ".toList ++ arg ++ ": No such file or directory\r\n".toList,vfs))

def lsMemory (root : Children) (parts : Path) : Result (KeyTable Text VirtualFileSystem.LsEntry) := do
  let found ← getNodeSafe root parts
  .ok (match found with
    | some (.dir _ children) => children.foldl (fun table child => table.insert child.1 (match child.2 with
      | .file node => ⟨node.perms,(encode node.content).length,false⟩
      | .dir perms _ => ⟨perms,4096,true⟩)) ∅
    | _ => ∅)

def lsTarget (long showHidden : Bool) (parts : Path) : Result Text :=
  match VirtualFileSystem.layerEntry view (vfs.resolveUpperPath parts),
    VirtualFileSystem.layerEntry view (vfs.resolveLowerPath parts) with
  | some (.file content),_ => .ok (VirtualFileSystem.lsFile long parts content)
  | _,some (.file content) => .ok (VirtualFileSystem.lsFile long parts content)
  | _,_ => do
    let inMemory ← lsMemory vfs.root parts
    let table := VirtualFileSystem.lsLayer view (vfs.resolveUpperPath parts)
      (VirtualFileSystem.lsLayer view (vfs.resolveLowerPath parts) inMemory)
    let node ← getNodeSafe vfs.root parts
    if table.len = 0 ∧ parts ≠ [] ∧ node.isNone then
      .ok ("ls: cannot access '".toList ++ VirtualFileSystem.pathText parts ++ "': No such file or directory\r\n".toList)
    else .ok (VirtualFileSystem.lsRender long showHidden table)

def ls (args : Text) : Result Text := do
  let named ← (args.splitWhitespace.filter VirtualFileSystem.isFlag).mapM (sliceFrom 1)
  let flags := named.flatten
  let showHidden := flags.contains 'a' || flags.contains 'A'
  let long := flags.contains 'l'
  let targets := VirtualFileSystem.operands args
  let places := if targets = [] then [vfs.currentPath] else targets.map vfs.resolve
  let listings ← places.mapM (lsTarget view vfs long showHidden)
  .ok listings.flatten

def catTarget (target : Text) : Result Text :=
  let parts := vfs.resolve target
  if target.containsText "shadow" then .ok ("cat: ".toList ++ target ++ ": Permission denied\r\n".toList) else
  match VirtualFileSystem.catLayer view (vfs.resolveUpperPath parts) target with
  | some shown => .ok shown
  | none =>
    match VirtualFileSystem.catLayer view (vfs.resolveLowerPath parts) target with
    | some shown => .ok shown
    | none => do
      let found ← getNodeSafe vfs.root parts
      .ok (match found with
        | none => "cat: ".toList ++ target ++ ": No such file or directory\r\n".toList
        | some (.dir _ _) => "cat: ".toList ++ target ++ ": Is a directory\r\n".toList
        | some (.file node) => if node.permissionDenied then "cat: ".toList ++ target ++ ": Permission denied\r\n".toList
          else VirtualFileSystem.catContent node.content)

def cat (args : Text) : Result Text := do
  let shown ← (VirtualFileSystem.operands args).mapM (catTarget view vfs)
  .ok shown.flatten

end Vfs

section State
variable {σ : Type} (fs : HostFs σ)

def mkdirMemory (parents : Bool) (target : Text) (parts : Path) (output : Text) (state : VfsState σ) :
    Result (Text × VfsState σ) :=
  if parents then .ok (output,state.inMemory (fun root => root.makeDirs parts)) else do
  let (parent,name) ← parentAndName parts
  .ok (match state.vfs.root.getDir parent with
    | some children =>
      if (children.get name).isSome then
        (if output = [] then VfsState.quoted "mkdir" "cannot create directory" "File exists" target else output,state)
      else (output,state.inMemory (fun root => root.putDir parent (children.insert name newDir)))
    | none =>
      (if output = [] then VfsState.quoted "mkdir" "cannot create directory" "No such file or directory" target else output,state))

def mkdirTarget (parents : Bool) (current : Text × VfsState σ) (target : Text) : Result (Text × VfsState σ) :=
  let (output,state) := current
  let parts := state.vfs.resolve target
  if parts = [] then .ok (output ++ "mkdir: cannot create directory '/': File exists\r\n".toList,state) else
  match state.vfs.resolveUpperPath parts with
  | none => mkdirMemory parents target parts output state
  | some upper =>
    if parents then mkdirMemory parents target parts output (state.apply fs (.createDirAll upper))
    else if ((fs.view state.host).entry upper).isSome then
      .ok (output ++ VfsState.quoted "mkdir" "cannot create directory" "File exists" target,state)
    else if upper = [] then mkdirMemory parents target parts output state
    else mkdirMemory parents target parts output ((state.createParents fs upper).apply fs (.createDir upper))

def mkdir (state : VfsState σ) (args : Text) : Result (Text × VfsState σ) :=
  let parents := args.splitWhitespace.any (· == "-p".toList)
  let targets := VirtualFileSystem.operands args
  if targets = [] then .ok ("mkdir: missing operand\r\n".toList,state)
  else targets.foldlM (mkdirTarget fs parents) ([],state)

def touchTarget (state : VfsState σ) (target : Text) : Result (VfsState σ) :=
  let parts := state.vfs.resolve target
  if parts = [] then .ok state else do
  let written := state.onUpper parts (fun upper => (state.createParents fs upper).apply fs (.openCreate upper))
  let (parent,name) ← parentAndName parts
  .ok (match written.vfs.root.getDir parent with
    | some children =>
      if (children.get name).isSome then written
      else written.inMemory (fun root => root.putDir parent (children.insert name (newFile [])))
    | none => written)

def touch (state : VfsState σ) (args : Text) : Result (Text × VfsState σ) :=
  let targets := VirtualFileSystem.operands args
  if targets = [] then .ok ("touch: missing file operand\r\n".toList,state)
  else do
    let touched ← targets.foldlM (touchTarget fs) state
    .ok ([],touched)

def rmMemory (recursive force : Bool) (target : Text) (parts : Path) (output : Text) (state : VfsState σ) :
    Result (Text × VfsState σ) := do
  let (parent,name) ← parentAndName parts
  .ok (match state.vfs.root.getDir parent with
    | none => (output,state)
    | some children =>
      match children.get name,recursive with
      | some (.dir _ _),false =>
        (if force = false ∧ output = [] then VfsState.quoted "rm" "cannot remove" "Is a directory" target else output,state)
      | some _,_ => (output,state.inMemory (fun root => root.putDir parent (children.remove name)))
      | none,_ => (if force = false ∧ output = [] then
          VfsState.quoted "rm" "cannot remove" "No such file or directory" target else output,state))

def rmTarget (recursive force : Bool) (current : Text × VfsState σ) (target : Text) : Result (Text × VfsState σ) :=
  let (output,state) := current
  let parts := state.vfs.resolve target
  if parts = [] then .ok (output ++ "rm: it is dangerous to operate recursively on '/'\r\n".toList,state) else
  match state.vfs.resolveUpperPath parts with
  | none => rmMemory recursive force target parts output state
  | some upper => match VfsState.rmDisk fs recursive force state upper with
    | none => .ok (output ++ VfsState.quoted "rm" "cannot remove" "Is a directory" target,state)
    | some removed => rmMemory recursive force target parts output removed

def rm (state : VfsState σ) (args : Text) : Result (Text × VfsState σ) :=
  let flags := args.splitWhitespace.filter VirtualFileSystem.isFlag
  let recursive := flags.any (fun token => token.contains 'r' || token.contains 'R')
  let force := flags.any (fun token => token.contains 'f')
  let targets := VirtualFileSystem.operands args
  if targets = [] then .ok (if force then [] else "rm: missing operand\r\n".toList,state)
  else targets.foldlM (rmTarget fs recursive force) ([],state)

def writeFile (state : VfsState σ) (target content : Text) (append : Bool) : Result (Text × VfsState σ) :=
  let parts := state.vfs.resolve target
  if parts = [] then .ok ("bash: ".toList ++ target ++ ": Is a directory\r\n".toList,state) else do
  let written := state.onUpper parts (fun upper => (state.createParents fs upper).apply fs
    (if append then .append upper (encode content) else .write upper (encode content)))
  let (parent,name) ← parentAndName parts
  .ok (match written.vfs.root.getDir parent with
    | none => ([],written)
    | some children =>
      let replaced := match append,children.get name with
        | true,some (.file node) => .file {node with content := node.content ++ content}
        | _,_ => newFile content
      ([],written.inMemory (fun root => root.putDir parent (children.insert name replaced))))

def run (state : VfsState σ) : VfsCommand → Result (Text × VfsState σ)
  | .pwd => .ok (state.vfs.pwd,state)
  | .cd arg => do
    let answer ← cd (fs.view state.host) state.vfs arg
    .ok (answer.1,{state with vfs := answer.2})
  | .ls args => do
    let output ← ls (fs.view state.host) state.vfs args
    .ok (output,state)
  | .cat args => do
    let output ← cat (fs.view state.host) state.vfs args
    .ok (output,state)
  | .mkdir args => mkdir fs state args
  | .touch args => touch fs state args
  | .rm args => rm fs state args
  | .writeFile target content append => writeFile fs state target content append

end State

-- No other program slices, indexes or unwraps, and none of them looks at a file.
def fixedProgram (date : Text) (view : View) (vfs : VirtualFileSystem) (cmd program args : Text) : Result Text :=
  match String.ofList program with
  | "echo" => echo args
  | "head" => cat view vfs (lastWord args)
  | "tail" => cat view vfs (lastWord args)
  | "wc" => do
    let content ← cat view vfs (lastWord args)
    .ok (wc content (lastWord args))
  | _ => .ok (Shell.fixedProgram date (vfs.cat view) cmd program args)

section Dispatch
variable {σ : Type} (fs : HostFs σ) (date : Text)

def dispatchPure (cmd : Text) (state : VfsState σ) : Result (Text × VfsState σ) := do
  let cmd ← stripSudo (cmd.length+1) cmd
  if cmd = [] then .ok ([],state) else do
  let parts := splitTwo cmd
  let program ← get parts 0
  let args := parts[1]?.getD []
  match vfsProgram (String.ofList program) args with
  | some command => run fs state command
  | none => do
    let output ← fixedProgram date (fs.view state.host) state.vfs cmd program args
    .ok (output,state)

-- The number bounds how deep `dispatch` calls itself.
def dispatch : Nat → Text → VfsState σ → Result (Text × VfsState σ)
  | 0,_,_ => .error .unfinished
  | depth+1,cmd,state => do
    let cmd := cmd.trim
    match ← parseRedirect cmd with
    | some redirect => do
      let answer ← dispatchPure fs date redirect.command.trim state
      let written ← writeFile fs answer.2 redirect.file.trim answer.1.unixLines redirect.append
      .ok ([],written.2)
    | none =>
      if ';' ∈ cmd then (cmd.split ';').foldlM (fun current part => do
        let answer ← dispatch depth part.trim current.2
        .ok (current.1 ++ answer.1,answer.2)) ([],state)
      else dispatchPure fs date cmd state

end Dispatch

def getPrompt (vfs : VirtualFileSystem) : Result Text := do
  let dir ← if vfs.currentPath = ["root".toList] then .ok "~".toList
    else if vfs.currentPath.head? = some "root".toList then
      (do let inner ← dropFrom 1 vfs.currentPath
          .ok ("~/".toList ++ Text.join "/" inner))
    else if vfs.currentPath = [] then .ok "/".toList
    else .ok ("/".toList ++ Text.join "/" vfs.currentPath)
  .ok ("root@ubuntu-server-01:".toList ++ dir ++ "# ".toList)

end Strict

section Texts

theorem splitDouble_next (other : ¬ (c = '>' ∧ rest.head? = some '>')) :
    splitDouble (c :: rest) = (splitDouble rest).map (fun found => (c :: found.1,found.2)) := by
  rw [splitDouble.eq_def]
  split
  · rename_i same
    obtain ⟨rfl,rfl⟩ := List.cons.inj same
    exact absurd ⟨rfl,rfl⟩ other
  · rename_i same
    obtain ⟨rfl,rfl⟩ := List.cons.inj same
    rfl
  · rename_i same
    cases same

theorem splitDouble_parts (cmd : Text) : splitDouble cmd = none ∧ find ">>".toList cmd = none ∨
    ∃ front back, splitDouble cmd = some (front,back) ∧ find ">>".toList cmd = some (len front) ∧ cmd = front ++ ">>".toList ++ back := by
  induction cmd with
  | nil => exact Or.inl ⟨rfl,rfl⟩
  | cons c rest ih =>
    by_cases here : c = '>' ∧ rest.head? = some '>'
    · obtain ⟨rfl,next⟩ := here
      cases rest with
      | nil => cases next
      | cons second later =>
        cases next
        exact Or.inr ⟨[],later,rfl,rfl,rfl⟩
    · have other : List.isPrefixOf ">>".toList (c :: rest) = false := by
        rw [Bool.eq_false_iff]
        intro held
        obtain ⟨back,same⟩ := List.isPrefixOf_iff_prefix.mp held
        cases same
        exact here ⟨rfl,rfl⟩
      have found : find ">>".toList (c :: rest) = (find ">>".toList rest).map (width c + ·) := by
        rw [find,other]
        rfl
      rw [found,splitDouble_next here]
      rcases ih with ⟨none,missing⟩ | ⟨front,back,double,offset,rfl⟩
      · exact Or.inl ⟨by rw [none]; rfl,by rw [missing]; rfl⟩
      · refine Or.inr ⟨c :: front,back,by rw [double]; rfl,?_,rfl⟩
        rw [offset,len_cons]
        rfl

theorem splitLast_parts (cmd : Text) : splitLast cmd = none ∧ rfind '>' cmd = none ∨
    ∃ front back, splitLast cmd = some (front,back) ∧ rfind '>' cmd = some (len front) ∧ cmd = front ++ ['>'] ++ back := by
  induction cmd with
  | nil => exact Or.inl ⟨rfl,rfl⟩
  | cons c rest ih =>
    rw [splitLast,rfind]
    rcases ih with ⟨none,missing⟩ | ⟨front,back,last,offset,rfl⟩
    · rw [none,missing]
      by_cases here : c = '>'
      · subst here
        exact Or.inr ⟨[],rest,rfl,rfl,rfl⟩
      · exact Or.inl ⟨by rw [if_neg here],by rw [if_neg here]; rfl⟩
    · rw [last,offset]
      refine Or.inr ⟨c :: front,back,rfl,?_,rfl⟩
      rw [len_cons]
      rfl

theorem equals_follows (front back : Text) : byteAt (front ++ ['>'] ++ back) (len front + 1) = some 0x3d ↔ back.head? = some '=' := by
  have whole : len front + 1 = len (front ++ ['>']) := (len_append front ['>']).symm
  rw [whole,byteAt_append]
  cases back with
  | nil => simp [encode]
  | cons c rest =>
    have first : (encodeChar c).head? = some 0x3d ↔ c.toNat = '='.toNat := first_byte c (by decide)
    rw [encode_head,first,Char.toNat_inj,List.head?_cons,Option.some.injEq]

theorem parseRedirect_strict (cmd : Text) : Strict.parseRedirect cmd = .ok (parseRedirect cmd) := by
  unfold Strict.parseRedirect parseRedirect
  rcases splitDouble_parts cmd with ⟨double,found⟩ | ⟨front,back,double,found,rfl⟩
  · rw [double,found]
    rcases splitLast_parts cmd with ⟨last,offset⟩ | ⟨front,back,last,offset,rfl⟩
    · rw [last,offset]
    · rw [last,offset]
      dsimp only
      have follows := equals_follows front back
      have behind := sliceFrom_append (front ++ ['>']) back
      rw [len_append] at behind
      have before := sliceTo_append front (['>'] ++ back)
      rw [← List.append_assoc] at before
      by_cases equals : back.head? = some '='
      · rw [if_pos equals,if_pos (follows.mpr equals)]
      · rw [if_neg equals,if_neg (fun held => equals (follows.mp held)),before,ok_bind]
        change sliceFrom (len front + len ['>']) _ >>= _ = _
        rw [behind,ok_bind]
  · rw [double,found]
    dsimp only
    have behind := sliceFrom_append (front ++ ">>".toList) back
    rw [len_append] at behind
    have before := sliceTo_append front (">>".toList ++ back)
    rw [← List.append_assoc] at before
    rw [before,ok_bind]
    change sliceFrom (len front + len ">>".toList) _ >>= _ = _
    rw [behind,ok_bind]

theorem quoted_parts (held : quotedBy quote text = true) (long : 2 ≤ len text) (small : quote.toNat < 0x80) :
    ∃ middle, text = [quote] ++ middle ++ [quote] := by
  unfold quotedBy at held
  rw [Bool.and_eq_true,beq_iff_eq,beq_iff_eq] at held
  obtain ⟨first,last⟩ := held
  cases text with
  | nil => cases first
  | cons c rest =>
    cases first
    rcases List.eq_nil_or_concat' rest with rfl | ⟨middle,d,rfl⟩
    · have short : len [quote] = 1 := len_ascii quote small
      omega
    · rw [← List.cons_append,List.getLast?_concat] at last
      cases last
      exact ⟨middle,rfl⟩

theorem echo_strict (args : Text) : Strict.echo args = .ok (echo args) := by
  unfold Strict.echo echo
  dsimp only
  generalize Text.trim args = text
  rw [show (encode text).length = len text from rfl]
  by_cases quoted : 2 ≤ len text ∧ (quotedBy '"' text || quotedBy '\'' text) = true
  · rw [if_pos quoted,if_pos quoted]
    have parts : ∃ quote middle, quote.toNat < 0x80 ∧ text = [quote] ++ middle ++ [quote] := by
      rcases Bool.or_eq_true_iff.mp quoted.2 with double | single
      · obtain ⟨middle,same⟩ := quoted_parts double quoted.1 (by decide)
        exact ⟨_,middle,by decide,same⟩
      · obtain ⟨middle,same⟩ := quoted_parts single quoted.1 (by decide)
        exact ⟨_,middle,by decide,same⟩
    obtain ⟨quote,middle,small,rfl⟩ := parts
    have one : len [quote] = 1 := len_ascii quote small
    have cut := slice_middle [quote] middle [quote]
    have stop : len ([quote] ++ middle ++ [quote]) - 1 = len [quote] + len middle := by
      rw [len_append,len_append,one]
      omega
    rw [one] at cut
    rw [sub_ok (by omega),ok_bind,stop,one,cut,ok_bind]
    simp
  · rw [if_neg quoted,if_neg quoted]
    rfl

theorem strictSudo_turn (turns : Nat) (cmd : Text) :
    Strict.stripSudo (turns+1) cmd = match sudoTurn cmd with
      | some next => Strict.stripSudo turns next
      | none => .ok cmd := by
  by_cases prefixed : ∃ rest, cmd = 's' :: 'u' :: 'd' :: 'o' :: rest
  · obtain ⟨rest,rfl⟩ := prefixed
    rw [Strict.stripSudo,sudoTurn]
    by_cases bare : rest = []
    · rw [if_pos bare,if_pos bare]
    · rw [if_neg bare,if_neg bare]
      by_cases blank : rest.head? = some ' '
      · rw [if_pos blank,if_pos blank]
      · rw [if_neg blank,if_neg blank]
  · have other : ∀ rest, cmd ≠ 's' :: 'u' :: 'd' :: 'o' :: rest := fun rest same => prefixed ⟨rest,same⟩
    rw [turn_plain cmd other,Strict.stripSudo]
    exact fun rest same => other rest same

-- A turn shortens the command, so that its length bounds the turns.
theorem stripSudo_turns (turns : Nat) (cmd : Text) (enough : cmd.length ≤ turns) :
    Strict.stripSudo (turns+1) cmd = .ok (stripSudoWithin turns cmd) := by
  induction turns generalizing cmd with
  | zero =>
    rw [List.length_eq_zero_iff.mp (Nat.le_zero.mp enough)]
    rfl
  | succ turns ih =>
    rw [strictSudo_turn,within_turn]
    cases turned : sudoTurn cmd with
    | none => rfl
    | some next =>
      have spent := turn_spends cmd next turned
      exact ih next (by omega)

theorem stripSudo_strict (cmd : Text) : Strict.stripSudo (cmd.length+1) cmd = .ok (stripSudo cmd) :=
  stripSudo_turns cmd.length cmd (Nat.le_refl _)

theorem splitTwo_strict (cmd : Text) : get (Strict.splitTwo cmd) 0 = .ok (programOf cmd) ∧
    (Strict.splitTwo cmd)[1]?.getD [] = argsOf cmd := by
  unfold Strict.splitTwo programOf argsOf
  cases cmd.dropWhile (· ≠ ' ') with
  | nil => exact ⟨rfl,rfl⟩
  | cons c rest => exact ⟨rfl,rfl⟩

end Texts

section Tree

theorem nodeLoop_strict (parts : Path) (i : Nat) (children : Children) (named : parts ≠ []) :
    Strict.nodeLoop (i + parts.length) parts i children = .ok (children.getNodeSafe parts) := by
  induction parts generalizing i children with
  | nil => exact absurd rfl named
  | cons part rest ih =>
    have last : sub (i + (part :: rest).length) 1 = .ok (i + rest.length) := sub_ok (by rw [List.length_cons]; omega)
    rw [Strict.nodeLoop,last]
    cases rest with
    | nil =>
      rw [Children.getNodeSafe]
      cases children.get part with
      | none => rfl
      | some node => exact if_pos rfl
    | cons next more =>
      rw [Children.getNodeSafe]
      · cases children.get part with
        | none => rfl
        | some node =>
          have inside : i ≠ i + (next :: more).length := by
            rw [List.length_cons]
            omega
          have later := fun inner => ih (i+1) inner (by simp)
          have joined : i + 1 + (next :: more).length = i + (part :: next :: more).length := by
            simp only [List.length_cons]
            omega
          rw [joined] at later
          dsimp only
          rw [ok_bind,if_neg inside]
          cases node with
          | file node => rfl
          | dir perms inner => exact later inner
      · intro same
        cases same

theorem getNodeSafe_strict (root : Children) (parts : Path) : Strict.getNodeSafe root parts = .ok (root.getNodeSafe parts) := by
  unfold Strict.getNodeSafe
  split
  · rename_i empty
    rw [empty]
    rfl
  · rename_i named
    have looped := nodeLoop_strict parts 0 root named
    rwa [Nat.zero_add] at looped

theorem parentAndName_strict (named : parts ≠ []) :
    Strict.parentAndName parts = .ok (parts.dropLast,VfsState.baseName parts) := by
  have some_ : 1 ≤ parts.length := List.length_pos_iff.mpr named
  unfold Strict.parentAndName
  rw [sub_ok some_,ok_bind,takeTo_ok (Nat.sub_le _ _),ok_bind,← List.dropLast_eq_take,VfsState.baseName,
    List.getLast?_eq_getLast_of_ne_nil named]
  rfl

end Tree

section Reading
variable (view : View) (vfs : VirtualFileSystem)

theorem cd_strict (arg : Text) : Strict.cd view vfs arg = .ok (vfs.cd view arg) := by
  unfold Strict.cd VirtualFileSystem.cd
  dsimp only
  generalize (if arg.trim = [] then ["root".toList] else vfs.resolve arg.trim) = parts
  by_cases root : parts = []
  · rw [if_pos root,if_pos root]
  · rw [if_neg root,if_neg root,getNodeSafe_strict]
    rcases VirtualFileSystem.layerEntry view (vfs.resolveUpperPath parts) with _ | (_ | content)
    · rcases VirtualFileSystem.layerEntry view (vfs.resolveLowerPath parts) with _ | (_ | content)
      · rcases vfs.root.getNodeSafe parts with _ | (node | ⟨perms,children⟩)
        · rfl
        · rfl
        · rfl
      · rfl
      · rfl
    · rfl
    · rfl

theorem lsMemory_strict (root : Children) (parts : Path) :
    Strict.lsMemory root parts = .ok (VirtualFileSystem.lsMemory root parts) := by
  unfold Strict.lsMemory VirtualFileSystem.lsMemory
  rw [getNodeSafe_strict]
  rcases root.getNodeSafe parts with _ | (node | ⟨perms,children⟩)
  · rfl
  · rfl
  · rfl

theorem lsTarget_strict (long showHidden : Bool) (parts : Path) :
    Strict.lsTarget view vfs long showHidden parts = .ok (VirtualFileSystem.lsTarget view vfs long showHidden parts) := by
  unfold Strict.lsTarget VirtualFileSystem.lsTarget
  dsimp only
  rw [lsMemory_strict,getNodeSafe_strict]
  simp only [ok_bind]
  generalize VirtualFileSystem.lsLayer view (vfs.resolveUpperPath parts) _ = table
  have gathered : ∀ (found : Prop) [Decidable found] (missing listed : Text),
      (if found then .ok missing else .ok listed : Result Text) = .ok (if found then missing else listed) :=
    fun found _ missing listed => (apply_ite Except.ok found missing listed).symm
  rcases VirtualFileSystem.layerEntry view (vfs.resolveUpperPath parts) with _ | (_ | content)
  · rcases VirtualFileSystem.layerEntry view (vfs.resolveLowerPath parts) with _ | (_ | content)
    · exact gathered _ _ _
    · exact gathered _ _ _
    · rfl
  · rcases VirtualFileSystem.layerEntry view (vfs.resolveLowerPath parts) with _ | (_ | content)
    · exact gathered _ _ _
    · exact gathered _ _ _
    · rfl
  · rfl

theorem flag_strict (flag : VirtualFileSystem.isFlag token = true) : sliceFrom 1 token = .ok (token.drop 1) := by
  obtain ⟨rest,rfl⟩ := List.isPrefixOf_iff_prefix.mp flag
  have dash : len "-".toList = 1 := len_ascii '-' (by decide)
  have cut := sliceFrom_append "-".toList rest
  rw [dash] at cut
  exact cut

theorem ls_strict (args : Text) : Strict.ls view vfs args = .ok (vfs.ls view args) := by
  unfold Strict.ls VirtualFileSystem.ls
  rw [mapM_ok _ (fun token member => flag_strict (List.mem_filter.mp member).2),ok_bind,← List.flatMap_def]
  dsimp only
  rw [mapM_ok _ (fun parts _ => lsTarget_strict view vfs _ _ parts),ok_bind,← List.flatMap_def]

theorem catTarget_strict (target : Text) :
    Strict.catTarget view vfs target = .ok (VirtualFileSystem.catTarget view vfs target) := by
  unfold Strict.catTarget VirtualFileSystem.catTarget
  dsimp only
  by_cases hidden : target.containsText "shadow" = true
  · rw [if_pos hidden,if_pos hidden]
  · rw [if_neg hidden,if_neg hidden,getNodeSafe_strict]
    cases VirtualFileSystem.catLayer view (vfs.resolveUpperPath (vfs.resolve target)) target with
    | some shown => rfl
    | none =>
      cases VirtualFileSystem.catLayer view (vfs.resolveLowerPath (vfs.resolve target)) target with
      | some shown => rfl
      | none =>
        rcases vfs.root.getNodeSafe (vfs.resolve target) with _ | (node | ⟨perms,children⟩)
        · rfl
        · rfl
        · rfl

theorem cat_strict (args : Text) : Strict.cat view vfs args = .ok (vfs.cat view args) := by
  unfold Strict.cat VirtualFileSystem.cat
  rw [mapM_ok _ (fun target _ => catTarget_strict view vfs target),ok_bind,← List.flatMap_def]

end Reading

section Writing
variable {σ : Type} (fs : HostFs σ)

theorem mkdirMemory_strict (parents : Bool) (target : Text) (output : Text) (state : VfsState σ) (named : parts ≠ []) :
    Strict.mkdirMemory parents target parts output state = .ok (VfsState.mkdirMemory parents target parts output state) := by
  unfold Strict.mkdirMemory VfsState.mkdirMemory
  cases parents with
  | true => rfl
  | false =>
    rw [if_neg Bool.false_ne_true,if_neg Bool.false_ne_true,parentAndName_strict named,ok_bind,VfsState.parentDir]
    dsimp only
    cases state.vfs.root.getDir parts.dropLast with
    | none => rfl
    | some children => rfl

theorem mkdirTarget_strict (parents : Bool) (current : Text × VfsState σ) (target : Text) :
    Strict.mkdirTarget fs parents current target = .ok (VfsState.mkdirTarget fs parents current target) := by
  obtain ⟨output,state⟩ := current
  unfold Strict.mkdirTarget VfsState.mkdirTarget
  dsimp only
  by_cases root : state.vfs.resolve target = []
  · rw [if_pos root,if_pos root]
  · rw [if_neg root,if_neg root]
    simp only [fun after => mkdirMemory_strict parents target output after root]
    cases state.vfs.resolveUpperPath (state.vfs.resolve target) with
    | none => rfl
    | some upper =>
      simp only [apply_ite Except.ok]

theorem mkdir_strict (state : VfsState σ) (args : Text) : Strict.mkdir fs state args = .ok (state.mkdir fs args) := by
  unfold Strict.mkdir VfsState.mkdir
  dsimp only
  rw [foldlM_ok _ _ (fun current target _ => mkdirTarget_strict fs _ current target)]
  split <;> rfl

theorem touchTarget_strict (state : VfsState σ) (target : Text) :
    Strict.touchTarget fs state target = .ok (VfsState.touchTarget fs state target) := by
  unfold Strict.touchTarget VfsState.touchTarget
  dsimp only
  by_cases root : state.vfs.resolve target = []
  · rw [if_pos root,if_pos root]
  · rw [if_neg root,if_neg root,parentAndName_strict root,ok_bind,VfsState.parentDir]
    generalize VfsState.onUpper state (state.vfs.resolve target) _ = written
    dsimp only
    cases written.vfs.root.getDir (state.vfs.resolve target).dropLast with
    | none => rfl
    | some children => rfl

theorem touch_strict (state : VfsState σ) (args : Text) : Strict.touch fs state args = .ok (state.touch fs args) := by
  unfold Strict.touch VfsState.touch
  dsimp only
  rw [foldlM_ok _ _ (fun current target _ => touchTarget_strict fs current target)]
  split <;> rfl

theorem rmMemory_strict (recursive force : Bool) (target : Text) (output : Text) (state : VfsState σ) (named : parts ≠ []) :
    Strict.rmMemory recursive force target parts output state =
      .ok (VfsState.rmMemory recursive force target parts output state) := by
  unfold Strict.rmMemory VfsState.rmMemory
  rw [parentAndName_strict named,ok_bind,VfsState.parentDir]
  dsimp only
  cases state.vfs.root.getDir parts.dropLast with
  | none => rfl
  | some children =>
    rcases children.get (VfsState.baseName parts) with _ | (node | ⟨perms,inner⟩)
    · rfl
    · rfl
    · cases recursive with
      | true => rfl
      | false => rfl

theorem rmTarget_strict (recursive force : Bool) (current : Text × VfsState σ) (target : Text) :
    Strict.rmTarget fs recursive force current target = .ok (VfsState.rmTarget fs recursive force current target) := by
  obtain ⟨output,state⟩ := current
  unfold Strict.rmTarget VfsState.rmTarget
  dsimp only
  by_cases root : state.vfs.resolve target = []
  · rw [if_pos root,if_pos root]
  · rw [if_neg root,if_neg root]
    simp only [fun after => rmMemory_strict recursive force target output after root]
    cases state.vfs.resolveUpperPath (state.vfs.resolve target) with
    | none => rfl
    | some upper =>
      dsimp only
      cases VfsState.rmDisk fs recursive force state upper with
      | none => rfl
      | some removed => rfl

theorem rm_strict (state : VfsState σ) (args : Text) : Strict.rm fs state args = .ok (state.rm fs args) := by
  unfold Strict.rm VfsState.rm
  dsimp only
  rw [foldlM_ok _ _ (fun current target _ => rmTarget_strict fs _ _ current target)]
  split <;> rfl

theorem writeFile_strict (state : VfsState σ) (target content : Text) (append : Bool) :
    Strict.writeFile fs state target content append = .ok (state.writeFile fs target content append) := by
  unfold Strict.writeFile VfsState.writeFile
  dsimp only
  by_cases root : state.vfs.resolve target = []
  · rw [if_pos root,if_pos root]
  · rw [if_neg root,if_neg root,parentAndName_strict root,ok_bind,VfsState.parentDir]
    generalize VfsState.onUpper state (state.vfs.resolve target) _ = written
    dsimp only
    cases written.vfs.root.getDir (state.vfs.resolve target).dropLast with
    | none => rfl
    | some children =>
      change Except.ok _ = Except.ok _
      dsimp only
      cases append with
      | false => rfl
      | true =>
        rcases children.get (VfsState.baseName (state.vfs.resolve target)) with _ | (node | ⟨perms,inner⟩)
        · rfl
        · rfl
        · rfl

theorem run_strict (state : VfsState σ) (command : VfsCommand) : Strict.run fs state command = .ok (state.run fs command) := by
  cases command with
  | pwd => rfl
  | cd arg =>
    simp only [Strict.run,cd_strict]
    rfl
  | ls args =>
    simp only [Strict.run,ls_strict]
    rfl
  | cat args =>
    simp only [Strict.run,cat_strict]
    rfl
  | mkdir args => exact mkdir_strict fs state args
  | touch args => exact touch_strict fs state args
  | rm args => exact rm_strict fs state args
  | writeFile target content append => exact writeFile_strict fs state target content append

end Writing

section Dispatching
variable {σ : Type} (fs : HostFs σ) (date : Text)

theorem fixedProgram_strict (view : View) (vfs : VirtualFileSystem) (cmd program args : Text) :
    Strict.fixedProgram date view vfs cmd program args = .ok (Shell.fixedProgram date (vfs.cat view) cmd program args) := by
  unfold Strict.fixedProgram
  split
  · rename_i same
    rw [echo_strict,Shell.fixedProgram,same]
    rfl
  · rename_i same
    rw [cat_strict,Shell.fixedProgram,same]
    rfl
  · rename_i same
    rw [cat_strict,Shell.fixedProgram,same]
    rfl
  · rename_i same
    rw [cat_strict,Shell.fixedProgram,same]
    rfl
  · rfl

theorem dispatchPure_strict (cmd : Text) (state : VfsState σ) :
    Strict.dispatchPure fs date cmd state = .ok (dispatchPure fs date cmd state) := by
  unfold Strict.dispatchPure dispatchPure
  rw [stripSudo_strict,ok_bind]
  dsimp only
  generalize stripSudo cmd = bare
  obtain ⟨program,args⟩ := splitTwo_strict bare
  by_cases empty : bare = []
  · rw [if_pos empty,if_pos empty]
  · rw [if_neg empty,if_neg empty,program,ok_bind,args]
    cases vfsProgram (String.ofList (programOf bare)) (argsOf bare) with
    | some command => exact run_strict fs state command
    | none =>
      dsimp only
      rw [fixedProgram_strict,ok_bind]

theorem redirected_strict (redirect : Redirect) (state : VfsState σ) :
    (do let answer ← Strict.dispatchPure fs date redirect.command.trim state
        let written ← Strict.writeFile fs answer.2 redirect.file.trim answer.1.unixLines redirect.append
        .ok ([],written.2) : Result (Text × VfsState σ)) = .ok ([],dispatchRedirect fs date redirect state) := by
  rw [dispatchPure_strict,ok_bind,writeFile_strict,ok_bind]
  rfl

-- A part of a list holds no separator and is not cut any further.
theorem part_strict (depth : Nat) (cmd : Text) (state : VfsState σ) (single : ';' ∉ cmd) :
    Strict.dispatch fs date (depth+1) cmd.trim state = .ok (dispatchSimple fs date cmd.trim state) := by
  have whole : ';' ∉ cmd.trim := by
    obtain ⟨front,back,parts,_,_⟩ := Text.trim_parts cmd
    intro member
    rw [parts] at single
    exact single (by simp [member])
  unfold Strict.dispatch dispatchSimple
  dsimp only
  rw [Text.trim_trim,parseRedirect_strict,ok_bind]
  cases parseRedirect cmd.trim with
  | some redirect => exact redirected_strict fs date redirect state
  | none =>
    dsimp only
    rw [if_neg whole,dispatchPure_strict]

theorem dispatch_strict (depth : Nat) (cmd : Text) (state : VfsState σ) :
    Strict.dispatch fs date (depth+2) cmd state = .ok (dispatch fs date cmd state) := by
  rw [Strict.dispatch]
  unfold dispatch
  dsimp only
  rw [parseRedirect_strict,ok_bind]
  cases parseRedirect cmd.trim with
  | some redirect => exact redirected_strict fs date redirect state
  | none =>
    dsimp only
    split
    · refine foldlM_ok _ _ ?_
      intro current part member
      rw [part_strict fs date depth part current.2 (Text.split_free member),ok_bind]
      rfl
    · exact dispatchPure_strict fs date _ state

theorem getPrompt_strict (vfs : VirtualFileSystem) : Strict.getPrompt vfs = .ok (SessionInput.getPrompt vfs) := by
  unfold Strict.getPrompt SessionInput.getPrompt
  dsimp only
  by_cases home : vfs.currentPath = ["root".toList]
  · rw [if_pos home,if_pos home]
    rfl
  · rw [if_neg home,if_neg home]
    by_cases below : vfs.currentPath.head? = some "root".toList
    · have some_ : 1 ≤ vfs.currentPath.length := by
        cases path : vfs.currentPath with
        | nil =>
          rw [path] at below
          cases below
        | cons part rest => simp
      rw [if_pos below,if_pos below,dropFrom_ok some_]
      rfl
    · rw [if_neg below,if_neg below]
      by_cases root : vfs.currentPath = []
      · rw [if_pos root,if_pos root]
        rfl
      · rw [if_neg root,if_neg root]
        rfl

-- Every partial operation stays inside its domain, and `dispatch` calls itself
-- no deeper than once.
theorem dispatch_never_panics (cmd : Text) (state : VfsState σ) :
    Strict.dispatch fs date 2 cmd state = .ok (dispatch fs date cmd state) ∧
      Strict.getPrompt (dispatch fs date cmd state).2.vfs = .ok (SessionInput.getPrompt (dispatch fs date cmd state).2.vfs) :=
  ⟨dispatch_strict fs date 0 cmd state,getPrompt_strict _⟩

end Dispatching

end AegisHoneypot.PanicFreedom
