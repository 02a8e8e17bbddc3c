import AegisHoneypot.MergedView

-- Which of `cd`, `ls` and `cat` say that a path does not exist.
namespace AegisHoneypot.CommandAnswers
open FileTree Utf8Text VfsNode Vfs VfsTree MergedView

structure Token (token : Text) : Prop where
  named : token ≠ []
  solid : ∀ c ∈ token, Text.isWhitespace c = false
  operand : VirtualFileSystem.isFlag token = false
  permitted : token.containsText "shadow" = false

theorem Token.trim (given : Token token) : token.trim = token := Text.trim_solid token given.solid

theorem Token.tokens (given : Token token) : token.splitWhitespace = [token] := by
  unfold Text.splitWhitespace
  rw [List.splitOnP_eq_singleton given.solid]
  simp [given.named]

theorem Token.operands (given : Token token) : VirtualFileSystem.operands token = [token] := by
  unfold VirtualFileSystem.operands
  rw [given.tokens]
  simp [given.operand]

theorem token_checked (named : token ≠ []) (solid : token.all (fun c => !Text.isWhitespace c) = true)
    (operand : VirtualFileSystem.isFlag token = false) (permitted : Text.containsText token "shadow" = false) : Token token := by
  refine ⟨named,?_,operand,permitted⟩
  intro c member
  simpa using List.all_eq_true.mp solid c member

inductive LsAnswer where
  | row (content : Bytes)
  | listing (table : KeyTable Text VirtualFileSystem.LsEntry)
  | cannotAccess

def LsAnswer.text (long showHidden : Bool) (parts : Path) : LsAnswer → Text
  | .row content => VirtualFileSystem.lsFile long parts content
  | .listing table => VirtualFileSystem.lsRender long showHidden table
  | .cannotAccess => "ls: cannot access '".toList ++ VirtualFileSystem.pathText parts ++ "': No such file or directory\r\n".toList

inductive CatAnswer where
  | shown (content : Text)
  | isADirectory
  | permissionDenied
  | noSuchFile
  deriving DecidableEq, Repr

def CatAnswer.text (target : Text) : CatAnswer → Text
  | .shown content => VirtualFileSystem.catContent content
  | .isADirectory => "cat: ".toList ++ target ++ ": Is a directory\r\n".toList
  | .permissionDenied => "cat: ".toList ++ target ++ ": Permission denied\r\n".toList
  | .noSuchFile => "cat: ".toList ++ target ++ ": No such file or directory\r\n".toList

section Answers
variable (view : View) (vfs : VirtualFileSystem) (parts : Path)

def lsTable : KeyTable Text VirtualFileSystem.LsEntry :=
  VirtualFileSystem.lsLayer view (vfs.resolveUpperPath parts)
    (VirtualFileSystem.lsLayer view (vfs.resolveLowerPath parts) (VirtualFileSystem.lsMemory vfs.root parts))

def lsGathered : LsAnswer :=
  if (lsTable view vfs parts).len = 0 ∧ parts ≠ [] ∧ (vfs.root.getNodeSafe parts).isNone then .cannotAccess
  else .listing (lsTable view vfs parts)

def lsAnswer : LsAnswer :=
  match upper view vfs parts,lower view vfs parts with
  | some (.file content),_ => .row content
  | _,some (.file content) => .row content
  | _,_ => lsGathered view vfs parts

def catEntry : Option Entry → Option CatAnswer
  | some .dir => some .isADirectory
  | some (.file content) => (fromUtf8 content).map .shown
  | none => none

def catMemory : Option FsNode → CatAnswer
  | none => .noSuchFile
  | some (.dir _ _) => .isADirectory
  | some (.file node) => if node.permissionDenied then .permissionDenied else .shown node.content

def catAnswer : CatAnswer :=
  ((catEntry (upper view vfs parts)).or (catEntry (lower view vfs parts))).getD (catMemory (vfs.root.getNodeSafe parts))

end Answers

theorem ls_answer (view : View) (vfs : VirtualFileSystem) (given : Token token) :
    vfs.ls view token = (lsAnswer view vfs (vfs.resolve token)).text false false (vfs.resolve token) := by
  have flags : (Text.splitWhitespace token).filter VirtualFileSystem.isFlag = [] := by
    rw [given.tokens]
    simp [given.operand]
  unfold VirtualFileSystem.ls
  simp only [flags,given.operands,List.map_cons,List.map_nil,List.cons_ne_nil,if_false,List.flatMap_cons,
    List.flatMap_nil,List.append_nil]
  change VirtualFileSystem.lsTarget view vfs false false (vfs.resolve token) = _
  generalize vfs.resolve token = parts
  have gathered : (if (lsTable view vfs parts).len = 0 ∧ parts ≠ [] ∧ (vfs.root.getNodeSafe parts).isNone then
      "ls: cannot access '".toList ++ VirtualFileSystem.pathText parts ++ "': No such file or directory\r\n".toList
      else VirtualFileSystem.lsRender false false (lsTable view vfs parts)) =
      (lsGathered view vfs parts).text false false parts := by
    unfold lsGathered
    split <;> rfl
  unfold VirtualFileSystem.lsTarget lsAnswer upper lower
  rcases VirtualFileSystem.layerEntry view (vfs.resolveUpperPath parts) with _ | (_ | content)
  · rcases VirtualFileSystem.layerEntry view (vfs.resolveLowerPath parts) with _ | (_ | content)
    · exact gathered
    · exact gathered
    · rfl
  · rcases VirtualFileSystem.layerEntry view (vfs.resolveLowerPath parts) with _ | (_ | content)
    · exact gathered
    · exact gathered
    · rfl
  · rfl

theorem catLayer_answer (view : View) (place : Option Path) (target : Text) :
    VirtualFileSystem.catLayer view place target = (catEntry (VirtualFileSystem.layerEntry view place)).map (CatAnswer.text target) := by
  unfold VirtualFileSystem.catLayer
  rcases VirtualFileSystem.layerEntry view place with _ | (_ | content)
  · rfl
  · rfl
  · simp only [catEntry,Option.map_map]
    rfl

theorem cat_answer (view : View) (vfs : VirtualFileSystem) (given : Token token) :
    vfs.cat view token = (catAnswer view vfs (vfs.resolve token)).text token := by
  unfold VirtualFileSystem.cat
  rw [given.operands,List.flatMap_cons,List.flatMap_nil,List.append_nil,VirtualFileSystem.catTarget]
  simp only [given.permitted,Bool.false_eq_true,if_false,catLayer_answer]
  unfold catAnswer upper lower
  cases catEntry (VirtualFileSystem.layerEntry view (vfs.resolveUpperPath (vfs.resolve token))) with
  | some shown => rfl
  | none =>
    cases catEntry (VirtualFileSystem.layerEntry view (vfs.resolveLowerPath (vfs.resolve token))) with
    | some shown => rfl
    | none =>
      rcases vfs.root.getNodeSafe (vfs.resolve token) with _ | (⟨content,perms,denied⟩ | ⟨perms,children⟩)
      · rfl
      · cases denied <;> rfl
      · rfl

section Missing
variable (view : View) (vfs : VirtualFileSystem) (parts : Path)

def places : List Path := (vfs.resolveUpperPath parts).toList ++ (vfs.resolveLowerPath parts).toList

-- The in-memory tree does not know the path, and each disk layer that holds it
-- holds something of that kind.
def Only (kind : Path → Entry → Prop) : Prop :=
  vfs.root.getNodeSafe parts = none ∧ ∀ place ∈ places vfs parts, ∀ held, view.entry place = some held → kind place held

def Present : Prop := ∃ place ∈ places vfs parts, (view.entry place).isSome

def EmptyDirectory (place : Path) (held : Entry) : Prop := held = .dir ∧ view.names place = []

def Unreadable (_ : Path) : Entry → Prop
  | .dir => False
  | .file content => fromUtf8 content = none

theorem only_layers (kind : Path → Entry → Prop) : Only view vfs parts kind ↔ vfs.root.getNodeSafe parts = none ∧
    (∀ place held, vfs.resolveUpperPath parts = some place → view.entry place = some held → kind place held) ∧
    (∀ place held, vfs.resolveLowerPath parts = some place → view.entry place = some held → kind place held) := by
  unfold Only places
  simp only [List.mem_append,Option.mem_toList]
  constructor
  · rintro ⟨free,all⟩
    exact ⟨free,fun place held above => all place (Or.inl above) held,fun place held below => all place (Or.inr below) held⟩
  · rintro ⟨free,above,below⟩
    refine ⟨free,?_⟩
    rintro place (here | here) held present
    · exact above place held here present
    · exact below place held here present

theorem cd_missing : cdAnswer (merged view vfs parts) = .noSuchFile ↔ Only view vfs parts (fun _ _ => False) := by
  have answer : cdAnswer (merged view vfs parts) = .noSuchFile ↔ merged view vfs parts = none := by
    rcases merged view vfs parts with _ | (_ | content | _) <;> simp [cdAnswer]
  rw [answer,only_layers]
  by_cases root : parts = []
  · subst root
    simp [merged,Children.getNodeSafe]
  · simp only [merged_named view vfs root,Option.or_eq_none_iff,beneath,Option.map_eq_none_iff,memory_node,upper,lower,
      VirtualFileSystem.layerEntry,Option.bind_eq_none_iff]
    constructor
    · rintro ⟨above,below,free⟩
      refine ⟨free,?_,?_⟩
      · intro place held here present
        simp [above place here] at present
      · intro place held here present
        simp [below place here] at present
    · rintro ⟨free,above,below⟩
      refine ⟨?_,?_,free⟩
      · exact fun place here => Option.eq_none_iff_forall_ne_some.mpr (fun held => above place held here)
      · exact fun place here => Option.eq_none_iff_forall_ne_some.mpr (fun held => below place held here)

theorem inserted_empty (table : KeyTable Text α) (names : List Text) (value : Text → α) :
    (names.foldl (fun table name => table.insert name (value name)) table).len = 0 ↔ names = [] ∧ table.len = 0 := by
  induction names using List.reverseRecOn with
  | nil => simp
  | append_singleton earlier name _ =>
    simp [AList.len]

theorem lsLayer_empty (place : Option Path) (table : KeyTable Text VirtualFileSystem.LsEntry) :
    (VirtualFileSystem.lsLayer view place table).len = 0 ↔
      table.len = 0 ∧ ∀ path, place = some path → view.entry path = some .dir → view.names path = [] := by
  unfold VirtualFileSystem.lsLayer
  cases place with
  | none => simp
  | some path =>
    dsimp only
    split
    · rename_i dir
      have held : view.entry path = some .dir := by simpa using dir
      simp [inserted_empty,held,and_comm]
    · rename_i other
      have free : view.entry path ≠ some .dir := by simpa using other
      simp [free]

theorem lsGathered_missing : lsGathered view vfs parts = .cannotAccess ↔ vfs.root.getNodeSafe parts = none ∧
    (∀ place, vfs.resolveUpperPath parts = some place → view.entry place = some .dir → view.names place = []) ∧
    (∀ place, vfs.resolveLowerPath parts = some place → view.entry place = some .dir → view.names place = []) := by
  have chosen : lsGathered view vfs parts = .cannotAccess ↔
      (lsTable view vfs parts).len = 0 ∧ parts ≠ [] ∧ (vfs.root.getNodeSafe parts).isNone := by
    unfold lsGathered
    split
    · simp_all
    · simp_all
  rw [chosen,lsTable,lsLayer_empty,lsLayer_empty,Option.isNone_iff_eq_none]
  constructor
  · rintro ⟨⟨⟨_,below⟩,above⟩,_,free⟩
    exact ⟨free,above,below⟩
  · rintro ⟨free,above,below⟩
    have named : parts ≠ [] := by
      rintro rfl
      cases free
    have empty : (VirtualFileSystem.lsMemory vfs.root parts).len = 0 := by
      rw [VirtualFileSystem.lsMemory,free]
      rfl
    exact ⟨⟨⟨empty,below⟩,above⟩,named,free⟩

theorem ls_missing : lsAnswer view vfs parts = .cannotAccess ↔ Only view vfs parts (EmptyDirectory view) := by
  have chosen : lsAnswer view vfs parts = .cannotAccess ↔ (∀ content, upper view vfs parts ≠ some (.file content)) ∧
      (∀ content, lower view vfs parts ≠ some (.file content)) ∧ lsGathered view vfs parts = .cannotAccess := by
    unfold lsAnswer
    rcases upper view vfs parts with _ | (_ | content) <;> rcases lower view vfs parts with _ | (_ | inner) <;> simp
  have emptied : ∀ place : Option Path, ((∀ content, VirtualFileSystem.layerEntry view place ≠ some (.file content)) ∧
      ∀ path, place = some path → view.entry path = some .dir → view.names path = []) ↔
      ∀ path held, place = some path → view.entry path = some held → EmptyDirectory view path held := by
    intro place
    constructor
    · rintro ⟨noFile,listed⟩ path held rfl present
      cases held with
      | dir => exact ⟨rfl,listed path rfl present⟩
      | file content => exact absurd present (noFile content)
    · intro all
      refine ⟨?_,fun path here present => (all path .dir here present).2⟩
      intro content present
      obtain ⟨path,here,found⟩ := Option.bind_eq_some_iff.mp present
      cases (all path _ here found).1
  rw [chosen,lsGathered_missing,only_layers,← emptied,← emptied]
  constructor
  · rintro ⟨above,below,free,upper,lower⟩
    exact ⟨free,⟨above,upper⟩,below,lower⟩
  · rintro ⟨free,⟨above,upper⟩,below,lower⟩
    exact ⟨above,below,free,upper,lower⟩

theorem cat_missing : catAnswer view vfs parts = .noSuchFile ↔ Only view vfs parts Unreadable := by
  have memory : catMemory (vfs.root.getNodeSafe parts) = .noSuchFile ↔ vfs.root.getNodeSafe parts = none := by
    rcases vfs.root.getNodeSafe parts with _ | (⟨content,perms,denied⟩ | ⟨perms,children⟩)
    · simp [catMemory]
    · cases denied <;> simp [catMemory]
    · simp [catMemory]
  have layer : ∀ place : Option Path, catEntry (VirtualFileSystem.layerEntry view place) = none ↔
      ∀ path held, place = some path → view.entry path = some held → Unreadable path held := by
    intro place
    constructor
    · rintro silent path held rfl present
      rw [VirtualFileSystem.layerEntry,Option.bind_some,present] at silent
      cases held with
      | dir => cases silent
      | file content => exact Option.map_eq_none_iff.mp silent
    · intro all
      cases held : VirtualFileSystem.layerEntry view place with
      | none => rfl
      | some entry =>
        obtain ⟨path,here,present⟩ := Option.bind_eq_some_iff.mp held
        have unread := all path entry here present
        cases entry with
        | dir => exact unread.elim
        | file content => exact Option.map_eq_none_iff.mpr unread
  have found : ∀ (held : Option Entry) (answer : CatAnswer), catEntry held = some answer → answer ≠ .noSuchFile := by
    rintro (_ | (_ | content)) answer given
    · cases given
    · cases given
      simp
    · obtain ⟨text,_,rfl⟩ := Option.map_eq_some_iff.mp given
      simp
  rw [only_layers,← layer,← layer,← memory]
  unfold catAnswer upper lower
  cases above : catEntry (VirtualFileSystem.layerEntry view (vfs.resolveUpperPath parts)) with
  | some answer => simp [found _ answer above]
  | none =>
    cases below : catEntry (VirtualFileSystem.layerEntry view (vfs.resolveLowerPath parts)) with
    | some answer => simp [found _ answer below]
    | none => simp

end Missing

-- Of the three, only `cd` decides by what is there.
def Agree (view : View) (vfs : VirtualFileSystem) (parts : Path) : Prop :=
  (cdAnswer (merged view vfs parts) = .noSuchFile ↔ lsAnswer view vfs parts = .cannotAccess) ∧
  (lsAnswer view vfs parts = .cannotAccess ↔ catAnswer view vfs parts = .noSuchFile)

theorem only_weaken (kind : Path → Entry → Prop) (missing : Only view vfs parts (fun _ _ => False)) :
    Only view vfs parts kind :=
  ⟨missing.1,fun place member held present => (missing.2 place member held present).elim⟩

theorem present_missing (present : Present view vfs parts) : ¬ Only view vfs parts (fun _ _ => False) := by
  obtain ⟨place,member,held⟩ := present
  obtain ⟨entry,found⟩ := Option.isSome_iff_exists.mp held
  exact fun missing => missing.2 place member entry found

theorem absent_missing (only : Only view vfs parts kind) (absent : ¬ Present view vfs parts) :
    Only view vfs parts (fun _ _ => False) := by
  refine ⟨only.1,?_⟩
  intro place member held found
  exact absent ⟨place,member,by simp [found]⟩

theorem agree_exact (view : View) (vfs : VirtualFileSystem) (parts : Path) :
    Agree view vfs parts ↔ ¬ (Present view vfs parts ∧ Only view vfs parts (EmptyDirectory view)) ∧
      ¬ (Present view vfs parts ∧ Only view vfs parts Unreadable) := by
  unfold Agree
  rw [cd_missing,ls_missing,cat_missing]
  constructor
  · rintro ⟨cdLs,lsCat⟩
    refine ⟨?_,?_⟩
    · rintro ⟨present,empty⟩
      exact present_missing present (cdLs.mpr empty)
    · rintro ⟨present,unreadable⟩
      exact present_missing present (cdLs.mpr (lsCat.mpr unreadable))
  · rintro ⟨noEmpty,noUnreadable⟩
    have emptied : Only view vfs parts (EmptyDirectory view) → Only view vfs parts (fun _ _ => False) := by
      intro empty
      exact absent_missing empty (fun present => noEmpty ⟨present,empty⟩)
    have unread : Only view vfs parts Unreadable → Only view vfs parts (fun _ _ => False) := by
      intro unreadable
      exact absent_missing unreadable (fun present => noUnreadable ⟨present,unreadable⟩)
    exact ⟨⟨only_weaken _,emptied⟩,fun empty => only_weaken _ (emptied empty),fun unreadable => only_weaken _ (unread unreadable)⟩

theorem existence_agreed (view : View) (vfs : VirtualFileSystem) (given : Token token) :
    (vfs.cd view token).1 = (cdAnswer (merged view vfs (vfs.resolve token))).text token ∧
    vfs.ls view token = (lsAnswer view vfs (vfs.resolve token)).text false false (vfs.resolve token) ∧
    vfs.cat view token = (catAnswer view vfs (vfs.resolve token)).text token ∧
    (Agree view vfs (vfs.resolve token) ↔
      ¬ (Present view vfs (vfs.resolve token) ∧ Only view vfs (vfs.resolve token) (EmptyDirectory view)) ∧
      ¬ (Present view vfs (vfs.resolve token) ∧ Only view vfs (vfs.resolve token) Unreadable)) := by
  have answer := cd_answer view vfs token (by rw [given.trim]; exact given.named)
  rw [given.trim] at answer
  exact ⟨answer,ls_answer view vfs given,cat_answer view vfs given,agree_exact view vfs _⟩

-- A golden image with one empty directory that the in-memory tree lacks.
def image : Disk := createDirAll ∅ ["rootfs".toList,"srv".toList,"data".toList]

def session : VirtualFileSystem := VirtualFileSystem.withRoots (some ["upper".toList]) (some ["rootfs".toList])

-- With a table in that directory.
def stocked : Disk := FileTree.apply image (.write ["rootfs".toList,"srv".toList,"data".toList,"rows".toList] [0x31,0x0a])

theorem stored_file_agreed : Token "/srv/data/rows".toList ∧
    (plain.view stocked).entry ["rootfs".toList,"srv".toList,"data".toList,"rows".toList] = some (.file [0x31,0x0a]) ∧
    Agree (plain.view stocked) session (session.resolve "/srv/data/rows".toList) := by
  have token : Token "/srv/data/rows".toList := token_checked (by decide) (by decide) (by decide) (by decide)
  have held : (plain.view stocked).entry ["rootfs".toList,"srv".toList,"data".toList,"rows".toList] = some (.file [0x31,0x0a]) := by
    decide
  have place : ["rootfs".toList,"srv".toList,"data".toList,"rows".toList] ∈ places session (session.resolve "/srv/data/rows".toList) := by
    decide
  have exactly := (existence_agreed (plain.view stocked) session token).2.2.2
  refine ⟨token,held,exactly.mpr ⟨?_,?_⟩⟩
  · rintro ⟨_,_,empty⟩
    cases (empty _ place _ held).1
  · rintro ⟨_,_,unreadable⟩
    have text : fromUtf8 [0x31,0x0a] = some ['1','\n'] := by decide
    cases text.symm.trans (unreadable _ place _ held)

theorem empty_directory_disagreed : Token "/srv/data".toList ∧
    (session.cd (plain.view image) "/srv/data".toList).1 = [] ∧
    session.ls (plain.view image) "/srv/data".toList =
      "ls: cannot access '/srv/data': No such file or directory\r\n".toList ∧
    session.cat (plain.view image) "/srv/data".toList = "cat: /srv/data: Is a directory\r\n".toList ∧
    ¬ Agree (plain.view image) session (session.resolve "/srv/data".toList) := by
  have token : Token "/srv/data".toList := token_checked (by decide) (by decide) (by decide) (by decide)
  have parts : session.resolve "/srv/data".toList = ["srv".toList,"data".toList] := by decide
  have above : upper (plain.view image) session ["srv".toList,"data".toList] = none := by decide
  have below : lower (plain.view image) session ["srv".toList,"data".toList] = some .dir := by decide
  have unlisted : lsGathered (plain.view image) session ["srv".toList,"data".toList] = .cannotAccess :=
    if_pos (by decide)
  have entered : merged (plain.view image) session ["srv".toList,"data".toList] = some .dir := by
    rw [merged_named _ _ (by simp),above,beneath,below]
    rfl
  have listed : lsAnswer (plain.view image) session ["srv".toList,"data".toList] = .cannotAccess := by
    rw [lsAnswer,above,below]
    exact unlisted
  have shown : catAnswer (plain.view image) session ["srv".toList,"data".toList] = .isADirectory := by
    rw [catAnswer,above,below]
    rfl
  have cdAnswered := cd_answer (plain.view image) session "/srv/data".toList (by decide)
  rw [token.trim,parts,entered] at cdAnswered
  have lsAnswered := ls_answer (plain.view image) session token
  rw [parts,listed] at lsAnswered
  have catAnswered := cat_answer (plain.view image) session token
  rw [parts,shown] at catAnswered
  refine ⟨token,cdAnswered,lsAnswered.trans (by decide),catAnswered.trans (by decide),?_⟩
  rw [Agree,parts,entered,listed]
  rintro ⟨cdLs,_⟩
  cases cdLs.mpr rfl

end AegisHoneypot.CommandAnswers
