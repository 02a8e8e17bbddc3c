import AegisHoneypot.CommandAnswers
import AegisHoneypot.CommandLists
import AegisHoneypot.RedirectedWrites

-- The output of a command goes into a file and comes back out of it.
namespace AegisHoneypot.RedirectTransparency
open FileTree Utf8Text VfsNode Vfs VfsTree Shell MergedView CommandAnswers CommandLists RedirectedWrites

-- The root is a directory, whatever the layers hold.
structure NoDirectory (view : View) (vfs : VirtualFileSystem) (parts : Path) : Prop where
  named : parts ≠ []
  upper : upper view vfs parts ≠ some .dir
  lower : lower view vfs parts ≠ some .dir
  memory : memory vfs parts ≠ some .dir

structure Printable (output : Text) : Prop where
  some_ : output ≠ []
  paired : output.Paired
  ended : Text.crlf <:+ output

-- What a redirection target is, seen from the state that the command leaves.
structure Target {σ : Type} (fs : HostFs σ) (state : VfsState σ) (output file : Text) : Prop where
  solid : ∀ c ∈ file, Text.isWhitespace c = false
  single : '>' ∉ file ∧ ';' ∉ file
  first : file.head? ≠ some '-' ∧ file.head? ≠ some '='
  permitted : file.containsText "shadow" = false
  leaf : NoDirectory (fs.view state.host) state.vfs (state.vfs.resolve file)
  parent : (state.parentDir (state.vfs.resolve file)).isSome
  unshadowed : state.vfs.mountRoot = none → lower (fs.view state.host) state.vfs (state.vfs.resolve file) = none
  -- The disk takes the write.
  lands : ∀ place, state.vfs.resolveUpperPath (state.vfs.resolve file) = some place →
    (fs.view (written fs state file output.unixLines false).host).entry place = some (.file (encode output.unixLines))

theorem catContent_unix (printable : Printable output) : VirtualFileSystem.catContent output.unixLines = output := by
  have shown : output.unixLines.unixLines.crlfLines = output := by
    rw [Text.unixLines_clear _ printable.paired.unix_clear,printable.paired.crlf_unix]
  unfold VirtualFileSystem.catContent
  dsimp only
  rw [shown,if_pos (List.isSuffixOf_iff_suffix.mpr printable.ended)]

section Parsing

theorem parseRedirect_single (front back : Text) (frontClear : '>' ∉ front) (backClear : '>' ∉ back)
    (other : back.head? ≠ some '=') : parseRedirect (front ++ '>' :: back) = some ⟨front,false,back⟩ := by
  have double : splitDouble (front ++ '>' :: back) = none := by
    rw [splitDouble_chain]
    have middle := (chain_trimmed front ['>'] back frontClear backClear).mpr (List.isChain_singleton _)
    rwa [List.append_assoc] at middle
  have last : splitLast (front ++ '>' :: back) = some (front,back) := by
    rw [splitLast_append,splitLast,(splitLast_none back).mpr backClear]
    simp
  rw [parseRedirect,double,last]
  exact if_neg other

theorem parseRedirect_clear (cmd : Text) (clear : '>' ∉ cmd) : parseRedirect cmd = none := by
  rw [parseRedirect_none,splitDouble_chain,(splitLast_none cmd).mpr clear]
  exact ⟨single_chain cmd clear,fun _ found => by cases found⟩

theorem trim_member (member : c ∈ Text.trim text) : c ∈ text := by
  obtain ⟨front,back,parts,_,_⟩ := Text.trim_parts text
  rw [parts]
  simp [member]

def redirectLine (cmd file : Text) : Text := cmd ++ " > ".toList ++ file

def catLine (file : Text) : Text := "cat ".toList ++ file

theorem redirectLine_trim (cmd file : Text) :
    (redirectLine cmd file).trim = Text.trimStart (cmd ++ [' ']) ++ '>' :: Text.trimEnd (' ' :: file) := by
  have whole : redirectLine cmd file = (cmd ++ [' ']) ++ '>' :: (' ' :: file) := by simp [redirectLine]
  rw [whole,Text.trim,Text.trimStart_middle _ _ (by decide),Text.trimEnd_middle _ _ (by decide)]

-- The line is cut at its only `>`, and both sides are trimmed.
theorem redirectLine_parsed (cmd file : Text) (clear : '>' ∉ cmd) (solid : ∀ c ∈ file, Text.isWhitespace c = false)
    (single : '>' ∉ file) : ∃ redirect, parseRedirect (redirectLine cmd file).trim = some redirect ∧
      redirect.command.trim = cmd.trim ∧ redirect.append = false ∧ redirect.file.trim = file := by
  have backClear : '>' ∉ Text.trimEnd (' ' :: file) := by
    intro member
    have inside := (List.rdropWhile_prefix _ _).subset member
    rcases List.mem_cons.mp inside with blank | held
    · exact absurd blank (by decide)
    · exact single held
  have frontClear : '>' ∉ Text.trimStart (cmd ++ [' ']) := by
    intro member
    have inside := (List.dropWhile_suffix _).subset member
    rcases List.mem_append.mp inside with held | blank
    · exact clear held
    · exact absurd (List.mem_singleton.mp blank) (by decide)
  have other : (Text.trimEnd (' ' :: file)).head? ≠ some '=' := by
    rw [Text.trimEnd_cons]
    split
    · simp [Text.isWhitespace]
    · simp
  refine ⟨⟨Text.trimStart (cmd ++ [' ']),false,Text.trimEnd (' ' :: file)⟩,?_,?_,rfl,?_⟩
  · rw [redirectLine_trim]
    exact parseRedirect_single _ _ frontClear backClear other
  · rw [Text.trim_trimStart,Text.trim_blank]
  · have dropped : Text.trimStart (' ' :: file) = Text.trimStart file := rfl
    rw [Text.trim_trimEnd,← Text.trim_trimStart,dropped,Text.trim_trimStart]
    exact Text.trim_solid file solid

end Parsing

section Dispatching
variable {σ : Type} (fs : HostFs σ) (date : Text)

theorem dispatch_bare (cmd : Text) (state : VfsState σ) (clear : '>' ∉ cmd) (single : ';' ∉ cmd) :
    dispatch fs date cmd state = dispatchPure fs date cmd.trim state := by
  unfold dispatch
  dsimp only
  rw [parseRedirect_clear _ (fun member => clear (trim_member member))]
  exact if_neg (fun member => single (trim_member member))

theorem dispatch_redirected (cmd file : Text) (state : VfsState σ) (clear : '>' ∉ cmd) (single : ';' ∉ cmd)
    (target : Target fs (dispatch fs date cmd state).2 (dispatch fs date cmd state).1 file) :
    dispatch fs date (redirectLine cmd file) state =
      ([],(VfsState.writeFile fs (dispatch fs date cmd state).2 file (dispatch fs date cmd state).1.unixLines false).2) := by
  obtain ⟨redirect,parsed,command,append,named⟩ := redirectLine_parsed cmd file clear target.solid target.single.1
  conv_lhs => rw [dispatch]
  rw [parsed]
  dsimp only
  rw [dispatchRedirect,command,append,named,dispatch_bare fs date cmd state clear single]
  rfl

theorem catLine_trim (file : Text) (solid : ∀ c ∈ file, Text.isWhitespace c = false) (named : file ≠ []) :
    (catLine file).trim = catLine file := by
  have front : (catLine file).trimStart = catLine file := rfl
  unfold Text.trim Text.trimEnd
  rw [front,List.rdropWhile_eq_self_iff]
  intro whole
  rw [show (catLine file).getLast whole = file.getLast named from List.getLast_append_of_ne_nil _ named]
  simp [solid _ (List.getLast_mem named)]

theorem dispatch_cat (file : Text) (state : VfsState σ) (solid : ∀ c ∈ file, Text.isWhitespace c = false)
    (single : '>' ∉ file ∧ ';' ∉ file) (named : file ≠ []) :
    dispatch fs date (catLine file) state = (state.vfs.cat (fs.view state.host) file,state) := by
  have free : ∀ c, c ∉ "cat ".toList → c ∉ file → c ∉ catLine file :=
    fun c front back => List.mem_append.not.mpr (not_or.mpr ⟨front,back⟩)
  rw [dispatch_bare fs date _ state (free _ (by decide) single.1) (free _ (by decide) single.2),catLine_trim file solid named]
  rfl

theorem dispatch_cat_nothing (state : VfsState σ) : (dispatch fs date (catLine []) state).1 = [] := rfl

theorem Target.token {file : Text} (target : Target fs state output file) (named : file ≠ []) : Token file := by
  refine ⟨named,target.solid,?_,target.permitted⟩
  have first := target.first.1
  cases file with
  | nil => exact absurd rfl named
  | cons c rest =>
    have dash : ('-' == c) = false := by
      rw [beq_eq_false_iff_ne]
      exact fun same => first (congrArg some same.symm)
    change ('-' == c && List.isPrefixOf [] rest) = false
    rw [dash,Bool.false_and]

-- What `cat` then finds, in the writable layer or, without one, in the tree.
theorem target_found {file : Text} (target : Target fs state output file) :
    let after := (VfsState.writeFile fs state file output.unixLines false).2
    catAnswer (fs.view after.host) after.vfs (after.vfs.resolve file) = .shown output.unixLines := by
  intro after
  have same : SameRoots state.vfs after.vfs := writeFile_roots fs state file output.unixLines false
  have host := writeFile_host fs state file output.unixLines false
  have tree := writeFile_tree fs state file output.unixLines false target.leaf.named (state.vfs.resolve file)
  rw [if_neg target.leaf.named] at host
  rw [if_pos ⟨target.parent,List.prefix_refl _⟩,if_pos rfl] at tree
  change lookAt after.vfs.root (state.vfs.resolve file) = _ at tree
  change after.host = _ at host
  rw [same.resolve,catAnswer,upper,lower,same.upperPath,same.lowerPath,host]
  cases mounted : state.vfs.mountRoot with
  | some base =>
    have place : state.vfs.resolveUpperPath (state.vfs.resolve file) =
        some (VirtualFileSystem.resolveDiskPathBase base (state.vfs.resolve file)) := by
      rw [VirtualFileSystem.resolveUpperPath,mounted]
      rfl
    have landed := target.lands _ place
    rw [place,VirtualFileSystem.layerEntry,Option.bind_some,landed,catEntry,fromUtf8_iff.mpr rfl]
    rfl
  | none =>
    have place : state.vfs.resolveUpperPath (state.vfs.resolve file) = none := by
      rw [VirtualFileSystem.resolveUpperPath,mounted]
      rfl
    have untouched : (written fs state file output.unixLines false).host = state.host := by
      rw [written,VfsState.onUpper,place]
    have free : VirtualFileSystem.layerEntry (fs.view state.host) (state.vfs.resolveLowerPath (state.vfs.resolve file)) = none :=
      target.unshadowed mounted
    have shown : lookAt after.vfs.root (state.vfs.resolve file) =
        some (.file ⟨output.unixLines,"-rw-r--r--".toList,false⟩) := by
      rw [tree]
      cases lookAt state.vfs.root (state.vfs.resolve file) with
      | none => rfl
      | some held => cases held <;> rfl
    rw [untouched,free,place]
    rw [lookAt,Option.map_eq_some_iff] at shown
    obtain ⟨node,found,looks⟩ := shown
    rw [found]
    cases node with
    | dir perms children => cases looks
    | file node =>
      cases looks
      rfl

end Dispatching

-- An empty target is taken for the current directory by `>`, but by `cat` for
-- no operand at all.
theorem redirect_read_back {σ : Type} (fs : HostFs σ) (date : Text) (state : VfsState σ) (cmd file : Text)
    (bare : '>' ∉ cmd ∧ ';' ∉ cmd) (printable : Printable (dispatch fs date cmd state).1)
    (target : Target fs (dispatch fs date cmd state).2 (dispatch fs date cmd state).1 file) :
    (dispatch fs date (redirectLine cmd file) state).1 = [] ∧
      ((dispatch fs date (catLine file) (dispatch fs date (redirectLine cmd file) state).2).1 = (dispatch fs date cmd state).1 ↔
        file ≠ []) := by
  rw [dispatch_redirected fs date cmd file state bare.1 bare.2 target]
  refine ⟨rfl,?_,?_⟩
  · rintro shown rfl
    exact printable.some_ shown.symm
  · intro named
    rw [dispatch_cat fs date file _ target.solid target.single named,cat_answer _ _ (target.token fs named),
      target_found fs target]
    exact catContent_unix printable

theorem echo_answer (state : VfsState Disk) : dispatch plain [] "echo hi".toList state = ("hi\r\n".toList,state) := rfl

theorem greeting_printable : Printable "hi\r\n".toList := by
  refine ⟨by simp,?_,⟨"hi".toList,rfl⟩⟩
  exact .plain (by decide) (by decide) (.plain (by decide) (by decide) (.break_ .empty))

theorem notes_target : Target plain fallback "hi\r\n".toList "/notes".toList := by
  refine ⟨?_,by decide,by decide,by decide,⟨by decide,by decide,by decide,by decide⟩,by decide,?_,?_⟩
  · intro c member
    have solid : "/notes".toList.all (fun c => !Text.isWhitespace c) = true := by decide
    simpa using List.all_eq_true.mp solid c member
  · intro unmounted
    cases unmounted
  · intro place found
    cases found
    decide

theorem greeting_read_back :
    (dispatch plain [] (redirectLine "echo hi".toList "/notes".toList) fallback).1 = [] ∧
      ((dispatch plain [] (catLine "/notes".toList)
          (dispatch plain [] (redirectLine "echo hi".toList "/notes".toList) fallback).2).1 =
        (dispatch plain [] "echo hi".toList fallback).1 ↔ "/notes".toList ≠ []) := by
  have printable : Printable (dispatch plain [] "echo hi".toList fallback).1 := by
    rw [echo_answer]
    exact greeting_printable
  have target : Target plain (dispatch plain [] "echo hi".toList fallback).2 (dispatch plain [] "echo hi".toList fallback).1
      "/notes".toList := by
    rw [echo_answer]
    exact notes_target
  exact redirect_read_back plain [] fallback "echo hi".toList "/notes".toList (by decide) printable target

-- A session that has removed the directory it is in.
def stranded : VfsState Disk :=
  (dispatch plain [] "mkdir /tmp/x; cd /tmp/x; rm -r /tmp/x".toList ⟨VirtualFileSystem.withRoots none none,∅⟩).2

theorem stranded_target : Target plain stranded "hi\r\n".toList [] := by
  refine ⟨by simp,by simp,by simp,by decide,⟨by decide,by decide,by decide,by decide⟩,by decide,fun _ => by decide,?_⟩
  have unmounted : stranded.vfs.resolveUpperPath (stranded.vfs.resolve []) = none := by decide
  intro place found
  rw [unmounted] at found
  cases found

theorem empty_target_not_read_back :
    ('>' ∉ "echo hi".toList ∧ ';' ∉ "echo hi".toList) ∧ Printable (dispatch plain [] "echo hi".toList stranded).1 ∧
      Target plain (dispatch plain [] "echo hi".toList stranded).2 (dispatch plain [] "echo hi".toList stranded).1 [] ∧
      (dispatch plain [] (catLine []) (dispatch plain [] (redirectLine "echo hi".toList []) stranded).2).1 ≠
        (dispatch plain [] "echo hi".toList stranded).1 := by
  rw [echo_answer]
  refine ⟨by decide,greeting_printable,stranded_target,?_⟩
  rw [dispatch_cat_nothing]
  simp

end AegisHoneypot.RedirectTransparency
