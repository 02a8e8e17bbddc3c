import AegisHoneypot.VfsConfinement

namespace AegisHoneypot.PathComposition
open FileTree Vfs VirtualFileSystem

-- The components of a path text, walked from a directory.
def walked (base : Path) (path : Text) : Path := (path.split '/').foldl pushComponent base

theorem walked_joint (base : Path) (front rest : Text) : walked base (front ++ '/' :: rest) = walked (walked base front) rest := by
  rw [walked,Text.split,List.splitOn_append_cons_self,List.foldl_append]
  rfl

theorem walked_slash (base : Path) (path : Text) : walked base ('/' :: path) = walked base path :=
  walked_joint base [] path

theorem walked_slashes (base : Path) (path : Text) : walked base (path.trimStartMatches '/') = walked base path := by
  induction path with
  | nil => rfl
  | cons c rest ih =>
    rw [Text.trimStartMatches,List.dropWhile_cons]
    cases slash : c == '/' with
    | false => rfl
    | true =>
      rw [if_pos rfl,eq_of_beq slash,walked_slash]
      exact ih

-- Names that are no `.`, no `..` and not empty are walked into one by one.
theorem walked_names (base parts : Path) (plain : Plain parts) : parts.foldl pushComponent base = base ++ parts := by
  induction parts generalizing base with
  | nil => exact (List.append_nil base).symm
  | cons part rest ih =>
    obtain ⟨named,others⟩ := List.forall_mem_cons.mp plain
    simp only [skipped,Bool.or_eq_false_iff,beq_eq_false_iff_ne] at named
    obtain ⟨⟨⟨some_,here⟩,up⟩,_⟩ := named
    have pushed : pushComponent base part = base ++ [part] := by
      rw [pushComponent,if_neg (not_or.mpr ⟨some_,here⟩),if_neg up]
    rw [List.foldl_cons,pushed,ih _ others,List.append_assoc]
    rfl

theorem plain_whole (plain : Plain parts) (member : part ∈ parts) : '/' ∉ part := by
  have named := plain part member
  simp only [skipped,Bool.or_eq_false_iff] at named
  simpa using named.2

-- Where each of the three branches of `resolve` starts its walk. They all go over
-- the same text: a path has tildes in front in one of them only, and the slashes
-- that this one strips too make no difference to a walk.
def start (vfs : VirtualFileSystem) (path : Text) : Path :=
  if path.startsWith "/" then [] else if path.startsWith "~" then ["root".toList] else vfs.currentPath

theorem tilde_free (path : Text) (away : ¬ path.startsWith "~" = true) : path.trimStartMatches '~' = path := by
  cases path with
  | nil => rfl
  | cons c rest =>
    have other : '~' ≠ c := by simpa [Text.startsWith] using away
    rw [Text.trimStartMatches,List.dropWhile_cons,beq_eq_false_iff_ne.mpr other.symm]
    rfl

theorem absolute_free (path : Text) (absolute : path.startsWith "/" = true) : ¬ path.startsWith "~" = true := by
  cases path with
  | nil => decide
  | cons c rest =>
    have slash : '/' = c := by simpa [Text.startsWith] using absolute
    subst c
    simp [Text.startsWith]

theorem resolve_walked (vfs : VirtualFileSystem) (path : Text) (trimmed : path.trim = path) (named : path ≠ []) :
    vfs.resolve path = walked (start vfs path) (path.trimStartMatches '~') := by
  unfold resolve start
  rw [trimmed]
  dsimp only
  rw [if_neg named]
  by_cases absolute : path.startsWith "/" = true
  · rw [if_pos absolute,if_pos absolute,tilde_free path (absolute_free path absolute)]
    rfl
  · rw [if_neg absolute,if_neg absolute]
    by_cases home : path.startsWith "~" = true
    · rw [if_pos home,if_pos home,← walked_slashes]
      by_cases bare : (path.trimStartMatches '~').trimStartMatches '/' = []
      · rw [if_pos bare,bare]
        rfl
      · rw [if_neg bare]
        rfl
    · rw [if_neg home,if_neg home,tilde_free path home]
      rfl

theorem resolve_trim (vfs : VirtualFileSystem) (path : Text) : vfs.resolve path.trim = vfs.resolve path := by
  unfold resolve
  rw [Text.trim_trim]

-- A text put behind a name does not reach the front, where the branch is chosen.
theorem start_joint (vfs : VirtualFileSystem) (front rest : Text) (named : front ≠ []) :
    start vfs (front ++ '/' :: rest) = start vfs front := by
  obtain ⟨c,later,rfl⟩ := List.exists_cons_of_ne_nil named
  simp [start,Text.startsWith]

theorem tildes_joint (front rest : Text) :
    Text.trimStartMatches '~' (front ++ '/' :: rest) = front.trimStartMatches '~' ++ '/' :: rest := by
  induction front with
  | nil => rfl
  | cons c later ih =>
    simp only [Text.trimStartMatches,List.cons_append,List.dropWhile_cons] at ih ⊢
    split
    · exact ih
    · rfl

theorem resolve_joint (vfs : VirtualFileSystem) (front rest : Text) (first : front.trim = front) (last : rest.trim = rest)
    (named : front ≠ []) (some_ : rest ≠ []) (relative : ¬ rest.startsWith "/" = true) (homeless : ¬ rest.startsWith "~" = true) :
    vfs.resolve (front ++ '/' :: rest) = {vfs with currentPath := vfs.resolve front}.resolve rest := by
  have whole : Text.trim (front ++ '/' :: rest) = front ++ '/' :: rest := Text.trim_joint first last rfl
  rw [resolve_walked vfs _ whole (by simp),start_joint vfs front rest named,tildes_joint,walked_joint,
    ← resolve_walked vfs front first named,resolve_walked _ rest last some_,tilde_free rest homeless,start,
    if_neg relative,if_neg homeless]

theorem resolve_home (vfs : VirtualFileSystem) (path : Text) :
    vfs.resolve ("~/".toList ++ path) = vfs.resolve ("/root/".toList ++ path) := by
  have tilde : Text.trim ("~/".toList ++ path) = ['~'] ++ '/' :: path.trimEnd := Text.trimEnd_middle ['~'] path rfl
  have root : Text.trim ("/root/".toList ++ path) = "/root".toList ++ '/' :: path.trimEnd :=
    Text.trimEnd_middle "/root".toList path rfl
  calc
    vfs.resolve ("~/".toList ++ path) = walked ["root".toList] ('/' :: path.trimEnd) := by
      rw [← resolve_trim,resolve_walked vfs _ (Text.trim_trim _) (by rw [tilde]; simp),tilde]
      rfl
    _ = walked [] ("/root".toList ++ '/' :: path.trimEnd) := by
      rw [walked_slash,walked_joint]
      rfl
    _ = vfs.resolve ("/root/".toList ++ path) := by
      rw [← resolve_trim vfs ("/root/".toList ++ path),resolve_walked vfs _ (Text.trim_trim _) (by rw [root]; simp),root]
      rfl

theorem join_ended (parts : List Text) (ended : ∀ last, parts.getLast? = some last → last.trimEnd = last) :
    Text.trimEnd (Text.join "/" parts) = Text.join "/" parts := by
  induction parts with
  | nil => rfl
  | cons part rest ih =>
    cases rest with
    | nil => exact ended part rfl
    | cons next rest =>
      have later := ih (fun last found => ended last (by simpa using found))
      have shape : Text.join "/" (part :: next :: rest) = part ++ '/' :: Text.join "/" (next :: rest) := by simp [Text.join]
      rw [shape,Text.trimEnd_middle _ _ rfl,later]

theorem resolve_names (vfs : VirtualFileSystem) (parts : Path) (plain : Plain parts)
    (ended : ∀ last, parts.getLast? = some last → last.trimEnd = last) : vfs.resolve (pathText parts) = parts := by
  have trimmed : Text.trim (pathText parts) = pathText parts :=
    (Text.trimEnd_middle [] (Text.join "/" parts) rfl).trans (congrArg (List.cons '/') (join_ended parts ended))
  have walk : vfs.resolve (pathText parts) = walked [] ('/' :: Text.join "/" parts) := resolve_walked vfs _ trimmed (by simp [pathText])
  rw [walk,walked_slash,walked]
  by_cases some_ : parts = []
  · subst parts
    rfl
  · rw [Text.split_join rfl parts some_ (fun part member => plain_whole plain member),walked_names [] parts plain]
    rfl

theorem currentPathStr_text (vfs : VirtualFileSystem) : vfs.currentPathStr = pathText vfs.currentPath := by
  unfold currentPathStr
  split
  · rename_i top
    rw [top]
    rfl
  · rfl

theorem resolve_composes (vfs : VirtualFileSystem) (normal : Plain vfs.currentPath) :
    (∀ a b : Text, a.trim = a → b.trim = b → a ≠ [] → b ≠ [] → ¬ b.startsWith "/" = true → ¬ b.startsWith "~" = true →
      vfs.resolve (a ++ "/".toList ++ b) = {vfs with currentPath := vfs.resolve a}.resolve b) ∧
    (∀ p, vfs.resolve ("~/".toList ++ p) = vfs.resolve ("/root/".toList ++ p)) ∧
    ((∀ last, vfs.currentPath.getLast? = some last → last.trimEnd = last) → vfs.resolve vfs.currentPathStr = vfs.currentPath) := by
  refine ⟨?_,resolve_home vfs,?_⟩
  · intro a b first last named some_ relative homeless
    rw [List.append_assoc]
    exact resolve_joint vfs a b first last named some_ relative homeless
  · intro ended
    rw [currentPathStr_text]
    exact resolve_names vfs vfs.currentPath normal ended

-- A login session, and a step up past the joint.
def login : VirtualFileSystem := withRoots none none

theorem resolve_composes_login :
    login.resolve ("~/docs".toList ++ "/".toList ++ "../../etc".toList) =
      {login with currentPath := login.resolve "~/docs".toList}.resolve "../../etc".toList ∧
    login.resolve login.currentPathStr = login.currentPath := by
  obtain ⟨joint,_,current⟩ := resolve_composes login home_plain
  exact ⟨joint "~/docs".toList "../../etc".toList (by decide) (by decide) (by decide) (by decide) (by decide) (by decide),
    current (by decide)⟩

end AegisHoneypot.PathComposition
