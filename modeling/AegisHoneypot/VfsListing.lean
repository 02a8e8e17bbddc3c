import AegisHoneypot.VfsTree
import AegisHoneypot.Library.Ranking

-- What `ls` prints depends on which names there are, not on how they are kept.
namespace AegisHoneypot.VfsListing
open FileTree Utf8Text VfsNode Vfs VfsTree VfsDepth Ranking
open VirtualFileSystem (nameLe LsEntry dotEntries lsRender lsMemory lsLayer)

theorem nameLe_total (left right : Text) : (nameLe left right || nameLe right left) = true := by
  induction left generalizing right with
  | nil => rfl
  | cons c left ih =>
    cases right with
    | nil => rfl
    | cons d right =>
      simp only [nameLe,Bool.or_eq_true,Bool.and_eq_true,decide_eq_true_eq,beq_iff_eq] at ih ⊢
      rcases Nat.lt_trichotomy c.toNat d.toNat with less | same | more
      · exact .inl (.inl less)
      · have equal : c = d := Char.toNat_inj.mp same
        rcases ih right with one | other
        · exact .inl (.inr ⟨equal,one⟩)
        · exact .inr (.inr ⟨equal.symm,other⟩)
      · exact .inr (.inl more)

theorem nameLe_antisymm (left right : Text) (one : nameLe left right = true) (other : nameLe right left = true) : left = right := by
  induction left generalizing right with
  | nil =>
    cases right with
    | nil => rfl
    | cons d right => cases other
  | cons c left ih =>
    cases right with
    | nil => cases one
    | cons d right =>
      simp only [nameLe,Bool.or_eq_true,Bool.and_eq_true,decide_eq_true_eq,beq_iff_eq] at one other
      rcases one with less | ⟨rfl,one⟩
      · rcases other with more | ⟨rfl,_⟩
        · omega
        · exact absurd less (Nat.lt_irrefl _)
      · rcases other with more | ⟨_,other⟩
        · exact absurd more (Nat.lt_irrefl _)
        · rw [ih right one other]

theorem nameLe_trans (left middle right : Text) (one : nameLe left middle = true) (other : nameLe middle right = true) :
    nameLe left right = true := by
  induction left generalizing middle right with
  | nil => rfl
  | cons c left ih =>
    cases middle with
    | nil => cases one
    | cons d middle =>
      cases right with
      | nil => cases other
      | cons e right =>
        simp only [nameLe,Bool.or_eq_true,Bool.and_eq_true,decide_eq_true_eq,beq_iff_eq] at one other ⊢
        rcases one with less | ⟨rfl,one⟩
        · rcases other with more | ⟨rfl,_⟩
          · exact .inl (less.trans more)
          · exact .inl less
        · rcases other with more | ⟨rfl,other⟩
          · exact .inl more
          · exact .inr ⟨rfl,ih middle right one other⟩

theorem nameLe_order : IsOrder nameLe := ⟨nameLe_total,nameLe_trans,nameLe_antisymm⟩

-- The rows of a listing: one for each name that has one, in the order of names.
structure IsListing (row : Text → Option LsEntry) (rows : List (Text × LsEntry)) : Prop where
  exact : ∀ name entry, (name,entry) ∈ rows ↔ row name = some entry
  nodup : rows.Nodup
  sorted : rows.Pairwise (fun one other => nameLe one.1 other.1 = true)

theorem IsListing.unique (one : IsListing row rows) (other : IsListing row others) : rows = others := by
  have same : rows.Perm others := by
    rw [List.perm_ext_iff_of_nodup one.nodup other.nodup]
    rintro ⟨name,entry⟩
    rw [one.exact,other.exact]
  refine same.eq_of_pairwise ?_ one.sorted other.sorted
  rintro ⟨name,entry⟩ ⟨also,held⟩ inside within before after
  obtain rfl : name = also := nameLe_antisymm _ _ before after
  have equal := ((one.exact _ _).mp inside).symm.trans ((other.exact _ _).mp within)
  rw [Option.some.inj equal]

open Classical in
noncomputable def listing (row : Text → Option LsEntry) : List (Text × LsEntry) :=
  if present : ∃ rows, IsListing row rows then present.choose else []

theorem IsListing.listing (isListing : IsListing row rows) : listing row = rows := by
  have present : ∃ rows, IsListing row rows := ⟨rows,isListing⟩
  rw [VfsListing.listing,dif_pos present]
  exact present.choose_spec.unique isListing

def tableRows (table : KeyTable Text LsEntry) : List (Text × LsEntry) :=
  (table.keys.mergeSort nameLe).filterMap (fun name => (table.lookup name).map (fun entry => (name,entry)))

theorem tableRows_listing (table : KeyTable Text LsEntry) : IsListing table.lookup (tableRows table) where
  exact name entry := by
    simp only [tableRows,List.mem_filterMap,List.mem_mergeSort,Option.map_eq_some_iff,Prod.mk.injEq]
    constructor
    · rintro ⟨key,_,held,found,rfl,rfl⟩
      exact found
    · intro found
      exact ⟨name,AList.mem_keys.mp (AList.lookup_isSome.mp (by rw [found]; rfl)),entry,found,rfl,rfl⟩
  nodup := by
    have keys : (table.keys.mergeSort nameLe).Nodup := (List.mergeSort_perm _ _).nodup_iff.mpr table.nodupKeys
    refine List.Nodup.filterMap ?_ keys
    intro name other row mine theirs
    obtain ⟨_,_,rfl⟩ := Option.map_eq_some_iff.mp mine
    obtain ⟨_,_,same⟩ := Option.map_eq_some_iff.mp theirs
    exact (congrArg Prod.fst same).symm
  sorted := by
    refine (mergeSort_sorted nameLe_order table.keys).filterMap _ ?_
    intro name other before row mine after theirs
    obtain ⟨_,_,rfl⟩ := Option.map_eq_some_iff.mp mine
    obtain ⟨_,_,rfl⟩ := Option.map_eq_some_iff.mp theirs
    exact before

-- The listing of a directory from its rows.
def renderRows (long showHidden : Bool) (rows : List (Text × LsEntry)) : Text :=
  let final := (if showHidden then dotEntries else []) ++ rows.filter (fun row => showHidden || !row.1.startsWith ".")
  if long then "total ".toList ++ (toString (final.length*4)).toList ++ Text.crlf ++
    final.flatMap (fun row => row.2.perms ++ " ".toList ++ (if row.2.isDir then "2".toList else "1".toList) ++
      " root root ".toList ++ Text.padLeft 5 row.2.size ++ " Aug 27 18:00 ".toList ++ row.1 ++ Text.crlf)
  else if final = [] then [] else Text.join "  " (final.map Prod.fst) ++ Text.crlf

theorem lsRender_rows (long showHidden : Bool) (table : KeyTable Text LsEntry) :
    lsRender long showHidden table = renderRows long showHidden (tableRows table) := by
  have shown : ((table.keys.mergeSort nameLe).filter (fun name => showHidden || !name.startsWith ".")).filterMap
      (fun name => (table.lookup name).map (fun entry => (name,entry))) =
      (tableRows table).filter (fun row => showHidden || !row.1.startsWith ".") := by
    rw [tableRows,List.filterMap_filter,List.filter_filterMap]
    refine List.filterMap_congr fun name _ => ?_
    cases table.lookup name with
    | none => simp
    | some entry => simp [Option.filter]
  rw [lsRender,renderRows,shown]

theorem tableRows_empty (table : KeyTable Text LsEntry) : table.len = 0 ↔ tableRows table = [] := by
  have exact := (tableRows_listing table).exact
  rw [AList.len_keys,List.length_eq_zero_iff,List.eq_nil_iff_forall_not_mem,List.eq_nil_iff_forall_not_mem]
  constructor
  · rintro none ⟨name,entry⟩ inside
    refine none name (AList.mem_keys.mp (AList.lookup_isSome.mp ?_))
    rw [(exact name entry).mp inside]
    rfl
  · intro none name held
    obtain ⟨entry,found⟩ := Option.isSome_iff_exists.mp (AList.lookup_isSome.mpr (AList.mem_keys.mpr held))
    exact none _ ((exact name entry).mpr found)

-- A table is read through its lookups alone.
theorem tableRows_of {row : Text → Option LsEntry} (table : KeyTable Text LsEntry) (same : ∀ name, table.lookup name = row name) :
    tableRows table = listing row := by
  have equal : row = table.lookup := (funext same).symm
  rw [equal]
  exact (tableRows_listing table).listing.symm

mutual
def nodeUnique : FsNode → Bool
  | .file _ => true
  | .dir _ children => unique children
-- No two entries of a directory share a name, at any depth.
def unique : List (Text × FsNode) → Bool
  | [] => true
  | (name,node) :: rest => nodeUnique node && unique rest && decide (name ∉ rest.map Prod.fst)
end

theorem unique_cons (name : Text) (node : FsNode) (rest : Children) :
    unique ((name,node) :: rest) = true ↔ nodeUnique node = true ∧ unique rest = true ∧ name ∉ rest.map Prod.fst := by
  rw [unique,Bool.and_eq_true,Bool.and_eq_true,decide_eq_true_eq,and_assoc]

theorem unique_get (children : Children) (valid : unique children = true) (found : children.get name = some node) :
    nodeUnique node = true := by
  induction children with
  | nil => cases found
  | cons child rest ih =>
    obtain ⟨key,other⟩ := child
    obtain ⟨sound,later,_⟩ := (unique_cons _ _ _).mp valid
    simp only [Children.get,List.lookup_cons] at found ih
    split at found
    · cases found
      exact sound
    · exact ih later found

theorem unique_remove (children : Children) (name : Text) (valid : unique children = true) :
    unique (children.remove name) = true := by
  induction children with
  | nil => rfl
  | cons child rest ih =>
    obtain ⟨key,node⟩ := child
    obtain ⟨sound,later,fresh⟩ := (unique_cons _ _ _).mp valid
    simp only [Children.remove,List.filter_cons] at ih ⊢
    split
    · refine (unique_cons _ _ _).mpr ⟨sound,ih later,fun inside => fresh ?_⟩
      exact (List.filter_sublist.map Prod.fst).subset inside
    · exact ih later

theorem unique_insert (children : Children) (name : Text) (node : FsNode) (valid : unique children = true)
    (sound : nodeUnique node = true) : unique (children.insert name node) = true := by
  refine (unique_cons _ _ _).mpr ⟨sound,unique_remove children name valid,?_⟩
  simp [Children.remove]

theorem unique_putDir (root : Children) (parts : Path) (changed : Children) (valid : unique root = true)
    (sound : unique changed = true) : unique (root.putDir parts changed) = true := by
  induction parts generalizing root with
  | nil => exact sound
  | cons part rest ih =>
    rw [Children.putDir]
    split
    · rename_i perms children found
      exact unique_insert root part _ valid (ih children (unique_get root valid found))
    · exact valid

theorem unique_getDir (root : Children) (parts : Path) (valid : unique root = true) (found : root.getDir parts = some children) :
    unique children = true := by
  induction parts generalizing root with
  | nil =>
    cases found
    exact valid
  | cons part rest ih =>
    rw [Children.getDir] at found
    split at found
    · rename_i perms inner held
      exact ih inner (unique_get root valid held) found
    · cases found

theorem unique_makeDirs (root : Children) (parts : Path) (valid : unique root = true) : unique (root.makeDirs parts) = true := by
  induction parts generalizing root with
  | nil => exact valid
  | cons part rest ih =>
    rw [Children.makeDirs]
    split
    · exact unique_insert root part _ valid (ih [] rfl)
    · rename_i perms children found
      exact unique_insert root part _ valid (ih children (unique_get root valid found))
    · exact valid

theorem default_unique : unique buildDefaultFs = true := by decide +kernel

def memoryRow : Look → LsEntry
  | .file node => ⟨node.perms,(encode node.content).length,false⟩
  | .dir perms => ⟨perms,4096,true⟩

def diskRow : Option Entry → LsEntry
  | some .dir => ⟨"drwxr-xr-x".toList,4096,true⟩
  | some (.file content) => ⟨"-rw-r--r--".toList,content.length,false⟩
  | none => ⟨"-rw-r--r--".toList,0,false⟩

-- The row that a directory of a layer has for a name.
def layerRow (view : View) (place : Option Path) (name : Text) : Option LsEntry :=
  place.bind fun path => if view.entry path = some .dir ∧ name ∈ view.names path then
    some (diskRow (view.entry (path ++ [name]))) else none

theorem inserts_lookup {α : Type} (items : List α) (key : α → Text) (row : α → LsEntry) (table : KeyTable Text LsEntry)
    (name : Text) (distinct : (items.map key).Nodup) :
    (items.foldl (fun table item => table.insert (key item) (row item)) table).lookup name =
      ((items.find? (fun item => key item == name)).map row).or (table.lookup name) := by
  induction items generalizing table with
  | nil => rfl
  | cons item rest ih =>
    rw [List.map_cons,List.nodup_cons] at distinct
    rw [List.foldl_cons,ih _ distinct.2,AList.lookup_insert_split,List.find?_cons]
    by_cases same : name = key item
    · have absent : rest.find? (fun other => key other == name) = none := by
        rw [List.find?_eq_none]
        intro other inside found
        rw [same] at found
        exact distinct.1 (List.mem_map.mpr ⟨other,inside,beq_iff_eq.mp found⟩)
      have here : (key item == name) = true := beq_iff_eq.mpr same.symm
      rw [absent,if_pos same,here]
      rfl
    · have apart : (key item == name) = false := beq_eq_false_iff_ne.mpr (Ne.symm same)
      rw [if_neg same,apart]

theorem unique_names (children : Children) (valid : unique children = true) : (children.map Prod.fst).Nodup := by
  induction children with
  | nil => exact List.nodup_nil
  | cons child rest ih =>
    obtain ⟨key,node⟩ := child
    obtain ⟨_,later,fresh⟩ := (unique_cons _ _ _).mp valid
    exact List.nodup_cons.mpr ⟨fresh,ih later⟩

theorem get_find (children : Children) (name : Text) :
    children.get name = (children.find? (fun child => child.1 == name)).map Prod.snd := by
  induction children with
  | nil => rfl
  | cons child rest ih =>
    obtain ⟨key,node⟩ := child
    rw [List.find?_cons]
    simp only [Children.get,List.lookup_cons] at ih ⊢
    rw [ih,BEq.comm]
    cases key == name with
    | true => rfl
    | false => rfl

theorem lsMemory_lookup (root : Children) (valid : unique root = true) (parts : Path) (name : Text) :
    (lsMemory root parts).lookup name = (lookAt root (parts ++ [name])).map memoryRow := by
  have inside := getDir_below root parts
  unfold lsMemory lookAt
  rw [getNodeSafe_below root (parts ++ [name]),below_append,getNodeSafe_below root parts]
  cases found : below (rootNode root) parts with
  | none => rfl
  | some node =>
    rw [found] at inside
    cases node with
    | file held => rfl
    | dir perms children =>
      have distinct := unique_names children (unique_getDir root parts valid inside)
      have distinctRows := inserts_lookup children Prod.fst (fun child => memoryRow (look child.2)) ∅ name distinct
      rw [AList.lookup_empty,Option.or_none] at distinctRows
      refine Eq.trans (congrArg (AList.lookup name) (List.foldl_ext _ _ _ ?_)) (distinctRows.trans ?_)
      · rintro table ⟨key,node⟩ _
        cases node <;> rfl
      · rw [Option.bind_some,below,get_find]
        cases children.find? (fun child => child.1 == name) with
        | none => rfl
        | some child =>
          obtain ⟨key,node⟩ := child
          cases node <;> rfl

theorem lsLayer_lookup (view : View) (place : Option Path) (table : KeyTable Text LsEntry) (name : Text) :
    (lsLayer view place table).lookup name = (layerRow view place name).or (table.lookup name) := by
  have rows : ∀ (path : Path) (names : List Text) (table : KeyTable Text LsEntry),
      (names.foldl (fun table name => table.insert name (diskRow (view.entry (path ++ [name])))) table).lookup name =
        if name ∈ names then some (diskRow (view.entry (path ++ [name]))) else table.lookup name := by
    intro path names
    induction names with
    | nil => exact fun table => rfl
    | cons key rest ih =>
      intro table
      rw [List.foldl_cons,ih,AList.lookup_insert_split]
      by_cases same : name = key
      · subst same
        simp
      · simp [same]
  unfold lsLayer layerRow
  cases place with
  | none => rfl
  | some path =>
    rw [Option.bind_some]
    dsimp only
    by_cases dir : view.entry path = some .dir
    · have shown := rows path (view.names path) table
      have held : (view.entry path == some .dir) = true := beq_iff_eq.mpr dir
      rw [held,if_pos rfl]
      refine Eq.trans ?_ (shown.trans ?_)
      · congr 2
      · by_cases listed : name ∈ view.names path
        · rw [if_pos listed,if_pos ⟨dir,listed⟩]
          rfl
        · rw [if_neg listed,if_neg (fun both => listed both.2)]
          rfl
    · have missing : (view.entry path == some .dir) = false := beq_eq_false_iff_ne.mpr dir
      rw [missing,if_neg Bool.false_ne_true,if_neg (fun both => dir both.1)]
      rfl

end AegisHoneypot.VfsListing
