import AegisHoneypot.Library.Provisioning
import Mathlib.Logic.Relation

-- Several programs that lay an image over a disk at the same time, call by call
-- and with the writes in pieces, while others read it.
namespace Provisioning
open FileTree Utf8Text

-- Bytes put into a file at an offset. A gap before them reads as zeros.
def overwrite (old : Bytes) (offset : Nat) (piece : Bytes) : Bytes :=
  old.take offset ++ List.replicate (offset-old.length) 0 ++ piece ++ old.drop (offset+piece.length)

def putAt (disk : Disk) (path : Path) (offset : Nat) (piece : Bytes) : Disk :=
  match entry disk path with
  | some (.file old) => disk.insert path (.file (overwrite old offset piece))
  | _ => disk

-- What a program has still to do: calls, or first the bytes behind the first
-- `count` of a file that it has emptied.
inductive Progress where
  | calls (rest : List Call)
  | writing (path : Path) (content : Bytes) (count : Nat) (rest : List Call)

section Advance
variable (world : World)

inductive Advance : Progress → Tree → Progress → Tree → Prop where
  | call : (∀ path content, made ≠ .write path content) → perform world tree made = some next →
      Advance (.calls (made :: rest)) tree (.calls rest) next
  | empty : perform world tree (.write path []) = some next →
      Advance (.calls (.write path content :: rest)) tree (.writing path content 0 rest) next
  | piece : 0 < more → count+more ≤ content.length → Advance (.writing path content count rest) tree
      (.writing path content (count+more) rest)
      {tree with disk := putAt tree.disk path count ((content.drop count).take more)}
  | close : Advance (.writing path content content.length rest) tree (.calls rest) tree

end Advance

-- The steps of one program that is left to itself.
def Alone (world : World) (before after : Progress × Tree) : Prop := Advance world before.1 before.2 after.1 after.2

theorem putAt_written {disk : Disk} (named : path ≠ []) (content : Bytes) :
    putAt (disk.insert path (.file [])) path 0 ((content.drop 0).take content.length) = disk.insert path (.file content) := by
  have held : entry (disk.insert path (.file [])) path = some (.file []) := by
    rw [entry_insert _ _ named,if_pos rfl]
  rw [putAt,held]
  dsimp only
  rw [AList.insert_insert,List.drop_zero,List.take_length]
  simp [overwrite]

theorem write_pieces (named : path ≠ []) (went : perform world tree (.write path content) = some next) :
    ∃ emptied, perform world tree (.write path []) = some emptied ∧
      (content ≠ [] → {emptied with disk := putAt emptied.disk path 0 ((content.drop 0).take content.length)} = next) ∧
      (content = [] → emptied = next) := by
  have written : ∀ bytes, (∃ old, entry tree.disk path = some (.file old)) ∨
      entry tree.disk path = none ∧ isDir tree.disk path.dropLast = true →
      apply tree.disk (.write path bytes) = tree.disk.insert path (.file bytes) := by
    rintro bytes (⟨old,held⟩ | ⟨free,parent⟩)
    · rw [apply,writeThrough,held]
    · rw [apply,writeThrough,free]
      exact if_pos parent
  unfold perform at went ⊢
  dsimp only at went ⊢
  split at went
  · rename_i reached
    rw [if_pos reached]
    rcases held : entry tree.disk path with _ | (_ | old)
    · simp only [held] at went ⊢
      split at went
      · rename_i allowed
        cases went
        have parent := (Bool.and_eq_true _ _ ▸ allowed).1
        rw [if_pos allowed]
        refine ⟨_,rfl,fun _ => ?_,fun empty => by rw [empty]⟩
        dsimp only
        rw [written _ (.inr ⟨held,parent⟩),written _ (.inr ⟨held,parent⟩),putAt_written named]
      · cases went
    · simp only [held] at went
      cases went
    · simp only [held] at went ⊢
      split at went
      · rename_i allowed
        cases went
        rw [if_pos allowed]
        refine ⟨_,rfl,fun _ => ?_,fun empty => by rw [empty]⟩
        dsimp only
        rw [written _ (.inl ⟨old,held⟩),written _ (.inl ⟨old,held⟩),putAt_written named]
      · cases went
  · cases went

-- What can be done call by call can be done in these steps.
theorem alone_completes (named : ∀ path content, .write path content ∈ calls → path ≠ [])
    (went : performAll world tree calls = some done) (after : List Call) :
    Relation.ReflTransGen (Alone world) (.calls (calls ++ after),tree) (.calls after,done) := by
  induction calls generalizing tree with
  | nil =>
    cases went
    exact .refl
  | cons call rest ih =>
    rw [performAll,Option.bind_eq_some_iff] at went
    obtain ⟨next,first,later⟩ := went
    have onward := ih (fun path content inside => named path content (List.mem_cons_of_mem _ inside)) later
    by_cases writes : ∃ path content, call = .write path content
    · obtain ⟨path,content,rfl⟩ := writes
      obtain ⟨emptied,begun,pieced,nothing⟩ := write_pieces (named path content List.mem_cons_self) first
      have opened : Alone world (.calls (.write path content :: (rest ++ after)),tree)
          (.writing path content 0 (rest ++ after),emptied) := .empty begun
      by_cases some_ : content = []
      · subst some_
        have closed : Alone world (.writing path [] 0 (rest ++ after),emptied) (.calls (rest ++ after),emptied) := .close
        rw [nothing rfl] at closed opened
        exact ((Relation.ReflTransGen.single opened).tail closed).trans onward
      · have wrote : Alone world (.writing path content 0 (rest ++ after),emptied)
            (.writing path content (0+content.length) (rest ++ after),
            {emptied with disk := putAt emptied.disk path 0 ((content.drop 0).take content.length)}) :=
          .piece (List.length_pos_of_ne_nil some_) (Nat.zero_add _).le
        rw [pieced some_,Nat.zero_add] at wrote
        have closed : Alone world (.writing path content content.length (rest ++ after),next) (.calls (rest ++ after),next) := .close
        exact (((Relation.ReflTransGen.single opened).tail wrote).tail closed).trans onward
    · rw [not_exists] at writes
      have made : Alone world (.calls (call :: (rest ++ after)),tree) (.calls (rest ++ after),next) :=
        .call (fun path content same => writes path ⟨content,same⟩) first
      exact (Relation.ReflTransGen.single made).trans onward

-- A program inside the write of a file. One that has failed there stays there.
def Rewritten {I : Type} (crew : I → Option Progress) (path : Path) : Prop :=
  ∃ one content count rest, crew one = some (.writing path content count rest)

-- A file of which every byte is the right one or zero.
def Part (content held : Bytes) : Prop :=
  held.length ≤ content.length ∧ ∀ (i : Nat) (byte : UInt8), held[i]? = some byte → content[i]? = some byte ∨ byte = 0

theorem part_refl (content : Bytes) : Part content content := ⟨Nat.le_refl _,fun _ _ here => .inl here⟩

theorem part_nil (content : Bytes) : Part content [] := ⟨Nat.zero_le _,by simp⟩

section Pieces
variable {content held : Bytes}

theorem piece_length (inside : count+more ≤ content.length) : ((content.drop count).take more).length = more := by
  rw [List.length_take,List.length_drop]
  omega

theorem overwrite_length (inside : count+more ≤ content.length) (short : held.length ≤ content.length) :
    (overwrite held count ((content.drop count).take more)).length ≤ content.length := by
  simp only [overwrite,List.length_append,List.length_take,List.length_replicate,List.length_drop]
  omega

theorem front_length (held : Bytes) (count : Nat) : (held.take count ++ List.replicate (count-held.length) 0).length = count := by
  rw [List.length_append,List.length_take,List.length_replicate]
  omega

-- A byte is one of the piece or of the gap before it, or what was there.
theorem overwrite_byte (inside : count+more ≤ content.length) (i : Nat) :
    (overwrite held count ((content.drop count).take more))[i]? =
      if count ≤ i ∧ i < count+more then content[i]?
      else if held.length ≤ i ∧ i < count then some 0 else held[i]? := by
  have front := front_length held count
  rw [overwrite,piece_length inside,List.append_assoc (_ ++ _)]
  rcases Nat.lt_or_ge i count with before | behind
  · rw [if_neg (by omega),List.getElem?_append_left (by omega)]
    rcases Nat.lt_or_ge i held.length with old | gap
    · rw [if_neg (by omega),List.getElem?_append_left (by rw [List.length_take]; omega),List.getElem?_take,if_pos before]
    · rw [if_pos ⟨gap,before⟩,List.getElem?_append_right (by rw [List.length_take]; omega),List.getElem?_replicate,
        if_pos (by rw [List.length_take]; omega)]
  · rw [List.getElem?_append_right (by omega),front]
    rcases Nat.lt_or_ge i (count+more) with new | after
    · rw [if_pos ⟨behind,new⟩,List.getElem?_append_left (by rw [piece_length inside]; omega),List.getElem?_take,
        if_pos (by omega),List.getElem?_drop,Nat.add_sub_cancel' behind]
    · rw [if_neg (by omega),if_neg (by omega),List.getElem?_append_right (by rw [piece_length inside]; omega),
        piece_length inside,List.getElem?_drop]
      congr 1
      omega

theorem overwrite_part (inside : count+more ≤ content.length) (part : Part content held) :
    Part content (overwrite held count ((content.drop count).take more)) := by
  refine ⟨overwrite_length inside part.1,fun i byte here => ?_⟩
  rw [overwrite_byte inside] at here
  split at here
  · exact .inl here
  · split at here
    · exact .inr (Option.some.inj here).symm
    · exact part.2 i byte here

-- The right bytes at the front stay right.
theorem overwrite_kept (inside : count+more ≤ content.length) (right : ∀ i < known, held[i]? = content[i]?)
    (within : known ≤ content.length) :
    ∀ i < known, (overwrite held count ((content.drop count).take more))[i]? = content[i]? := by
  intro i below
  rw [overwrite_byte inside]
  split
  · rfl
  · split
    · rename_i gap
      have here := right i below
      rw [List.getElem?_eq_none gap.1,List.getElem?_eq_getElem (below.trans_le within)] at here
      cases here
    · exact right i below

theorem overwrite_grown (inside : count+more ≤ content.length) (right : ∀ i < count, held[i]? = content[i]?) :
    ∀ i < count+more, (overwrite held count ((content.drop count).take more))[i]? = content[i]? := by
  intro i below
  by_cases before : i < count
  · exact overwrite_kept inside right (by omega) i before
  · rw [overwrite_byte inside,if_pos ⟨Nat.le_of_not_lt before,below⟩]

theorem part_whole (part : Part content held) (right : ∀ i < content.length, held[i]? = content[i]?) : held = content := by
  refine List.ext_getElem? fun i => ?_
  rcases Nat.lt_or_ge i content.length with below | past
  · exact right i below
  · rw [List.getElem?_eq_none past,List.getElem?_eq_none (part.1.trans past)]

end Pieces

theorem putAt_entry {disk : Disk} (held : entry disk path = some (.file old)) (offset : Nat) (piece : Bytes) (other : Path) :
    entry (putAt disk path offset piece) other =
      if other = path then some (.file (overwrite old offset piece)) else entry disk other := by
  unfold putAt
  rw [held]
  exact entry_insert disk _ (file_named held) other

theorem putAt_shaped {disk : Disk} (shaped : Shaped disk) (path : Path) (offset : Nat) (piece : Bytes) :
    Shaped (putAt disk path offset piece) := by
  rcases held : entry disk path with _ | (_ | old)
  · rwa [putAt,held]
  · rwa [putAt,held]
  · have same : putAt disk path offset piece = writeThrough disk path (fun old => overwrite old offset piece) := by
      rw [putAt,writeThrough,held]
    rw [same]
    exact writeThrough_shaped shaped path _

namespace Image
variable {world : World} {image : Image} {I : Type}

-- A program on its way through the calls of an image.
def Leads (image : Image) : Progress → Prop
  | .calls rest => rest ⊆ image.calls
  | .writing path content count rest =>
    (∃ file ∈ image.files, file.path = path ∧ file.content = content) ∧ count ≤ content.length ∧ rest ⊆ image.calls

-- The image is there, but for the files that programs are inside of. Of one that
-- is not whole, the program that emptied it last has got its first bytes right.
structure Manned (world : World) (image : Image) (tree : Tree) (crew : I → Option Progress) : Prop where
  shaped : Shaped tree.disk
  ways : ∀ path, image.OnWay path → entry tree.disk path = some .dir
  files : ∀ file ∈ image.files, ∃ held, entry tree.disk file.path = some (.file held) ∧ Part file.content held ∧
    (held = file.content ∨ ∃ one count rest, crew one = some (.writing file.path file.content count rest) ∧
      ∀ i < count, held[i]? = file.content[i]?)
  open_ : image.Open world tree
  leads : ∀ one progress, crew one = some progress → image.Leads progress

theorem laid_manned {origin done : Tree} (laid : image.Laid origin done) (open_ : image.Open world done) :
    image.Manned world done (fun _ : I => none) where
  shaped := laid.shaped
  ways path way := by
    rw [laid.entries]
    exact laidOver_way _ way
  files file inside := by
    refine ⟨file.content,?_,part_refl _,.inl rfl⟩
    rw [laid.entries]
    exact laidOver_file _ inside
  open_ := open_
  leads := nofun

variable {tree : Tree} {crew : I → Option Progress}

theorem Manned.fits (manned : image.Manned world tree crew) : image.Fits tree.disk where
  shaped := manned.shaped
  ways path content way held := by
    rw [manned.ways path way] at held
    cases held
  files path isFile held := by
    obtain ⟨file,inside,rfl⟩ := isFile
    obtain ⟨_,there,_⟩ := manned.files file inside
    rw [there] at held
    cases held

-- Another program that is left to itself goes through.
theorem Manned.completes (manned : image.Manned world tree crew) :
    ∃ done, performAll world tree image.calls = some done ∧ image.Laid tree done := by
  obtain ⟨done,went,laid,_⟩ := calls_complete world manned.fits (origin_ready manned.fits manned.open_)
  exact ⟨done,went,laid⟩

theorem placed_present (manned : image.Manned world tree crew) (placed : image.OnWay path ∨ image.IsFile path) :
    (entry tree.disk path).isSome := by
  rcases placed with way | ⟨file,inside,rfl⟩
  · rw [manned.ways path way]
    rfl
  · obtain ⟨_,there,_⟩ := manned.files file inside
    rw [there]
    rfl

theorem mark_placed (listed : image.IsFile path ∨ path ∈ image.marks.map Prod.fst) : image.OnWay path ∨ image.IsFile path := by
  rcases listed with file | marked
  · exact .inr file
  · obtain ⟨mark,inside,rfl⟩ := List.mem_map.mp marked
    exact .inl (mark_way inside)

theorem Manned.reopened (manned : image.Manned world tree crew)
    (there : ∀ path, image.OnWay path ∨ image.IsFile path → (entry disk path).isSome) :
    image.Open world {tree with disk := disk} where
  fresh := manned.open_.fresh
  search path way _ := manned.open_.search path way (manned.ways path way)
  add path placed free _ := by
    have present := there path placed
    change entry disk path = none at free
    rw [free] at present
    cases present
  owned path listed _ := manned.open_.owned path listed (placed_present manned (mark_placed listed))

-- What others do beside the image.
theorem Manned.beside (manned : image.Manned world tree crew) (shaped : Shaped disk)
    (same : ∀ path, image.OnWay path ∨ image.IsFile path → entry disk path = entry tree.disk path) :
    image.Manned world {tree with disk := disk} crew where
  shaped := shaped
  ways path way := (same path (.inl way)).trans (manned.ways path way)
  files file inside := by
    obtain ⟨held,there,rest⟩ := manned.files file inside
    exact ⟨held,(same _ (.inr ⟨file,inside,rfl⟩)).trans there,rest⟩
  open_ := manned.reopened fun path placed => by
    rw [same path placed]
    exact placed_present manned placed
  leads := manned.leads

theorem call_write (inside : .write path content ∈ image.calls) : ∃ file ∈ image.files, file.path = path ∧ file.content = content := by
  rcases List.mem_append.mp inside with before | files
  · rcases List.mem_append.mp before with dirs | marks
    · obtain ⟨_,_,same⟩ := List.mem_map.mp dirs
      cases same
    · obtain ⟨_,_,same⟩ := List.mem_map.mp marks
      cases same
  · obtain ⟨file,listed,made⟩ := List.mem_flatMap.mp files
    simp only [fileCalls,List.mem_cons,List.not_mem_nil,or_false,reduceCtorEq,false_or,Call.write.injEq] at made
    exact ⟨file,listed,made.1.symm,made.2.symm⟩

theorem write_listed (inside : file ∈ image.files) : .write file.path file.content ∈ image.calls :=
  List.mem_append_right _ (List.mem_flatMap.mpr ⟨file,inside,by simp [fileCalls]⟩)

theorem call_kept (other : ∀ path content, call ≠ .write path content) (went : perform world tree call = some next)
    (present : (entry tree.disk path).isSome) : entry next.disk path = entry tree.disk path := by
  cases call with
  | makeDirs _ =>
    obtain ⟨_,_,keeps⟩ := makeDirs_made went
    exact (keeps path id present).1
  | write path content => exact absurd rfl (other path content)
  | chmod _ _ => rw [(chmod_entry went).1]

variable [DecidableEq I]

theorem leads_update {one : I} (leads : ∀ one progress, crew one = some progress → image.Leads progress)
    (own : ∀ progress, next = some progress → image.Leads progress) :
    ∀ other progress, Function.update crew one next other = some progress → image.Leads progress := by
  intro other progress held
  by_cases same : other = one
  · subst same
    rw [Function.update_self] at held
    exact own progress held
  · rw [Function.update_of_ne same] at held
    exact leads other progress held

-- A program that is not inside a file does something that leaves it as it is.
theorem Manned.idle {one : I} (manned : image.Manned world tree crew) (idle : ∀ path content count rest,
    crew one ≠ some (.writing path content count rest)) (own : ∀ progress, next = some progress → image.Leads progress)
    (shaped : Shaped after.disk) (open_ : image.Open world after)
    (same : ∀ path, image.OnWay path ∨ image.IsFile path → entry after.disk path = entry tree.disk path) :
    image.Manned world after (Function.update crew one next) where
  shaped := shaped
  ways path way := (same path (.inl way)).trans (manned.ways path way)
  files file inside := by
    obtain ⟨held,there,part,whole⟩ := manned.files file inside
    refine ⟨held,(same _ (.inr ⟨file,inside,rfl⟩)).trans there,part,whole.imp_right ?_⟩
    rintro ⟨other,count,rest,busy,right⟩
    refine ⟨other,count,rest,?_,right⟩
    rwa [Function.update_of_ne]
    rintro rfl
    exact idle _ _ _ _ busy
  open_ := open_
  leads := leads_update manned.leads own

theorem Manned.joined {one : I} (manned : image.Manned world tree crew) (free : crew one = none) :
    image.Manned world tree (Function.update crew one (some (.calls image.calls))) :=
  manned.idle (by simp [free]) (by rintro _ ⟨⟩; exact List.Subset.refl _) manned.shaped manned.open_ (fun _ _ => rfl)

theorem Manned.left {one : I} (manned : image.Manned world tree crew) (through : crew one = some (.calls [])) :
    image.Manned world tree (Function.update crew one none) :=
  manned.idle (by simp [through]) (by rintro _ ⟨⟩) manned.shaped manned.open_ (fun _ _ => rfl)

-- The program empties the file, and so is the last to have done it.
theorem Manned.emptied {one : I} (manned : image.Manned world tree crew) (here : crew one = some (.calls (.write path content :: rest)))
    (went : perform world tree (.write path []) = some next) :
    image.Manned world next (Function.update crew one (some (.writing path content 0 rest))) := by
  have leads : .write path content :: rest ⊆ image.calls := manned.leads one _ here
  obtain ⟨first,later⟩ := List.cons_subset.mp leads
  obtain ⟨mine,inside,rfl,rfl⟩ := call_write first
  have isFile : image.IsFile mine.path := ⟨mine,inside,rfl⟩
  have wrote := write_entry (file_named isFile) went
  refine ⟨?_,?_,?_,manned.open_.perform (.write isFile) went,leads_update manned.leads ?_⟩
  · rw [write_disk went]
    exact apply_shaped manned.shaped _
  · intro other way
    have apart : other ≠ mine.path := by
      rintro rfl
      exact way_not_file way isFile
    rw [(wrote other).1,if_neg apart]
    exact manned.ways other way
  · intro file listed
    by_cases same : file.path = mine.path
    · obtain rfl := image.apart file listed mine inside (same ▸ List.prefix_refl _)
      refine ⟨[],by rw [(wrote _).1,if_pos rfl],part_nil _,.inr ⟨one,0,rest,Function.update_self ..,nofun⟩⟩
    · obtain ⟨held,there,part,whole⟩ := manned.files file listed
      refine ⟨held,by rw [(wrote _).1,if_neg same]; exact there,part,whole.imp_right ?_⟩
      rintro ⟨other,count,tail,busy,right⟩
      refine ⟨other,count,tail,?_,right⟩
      rwa [Function.update_of_ne]
      rintro rfl
      cases here.symm.trans busy
  · rintro _ ⟨⟩
    exact ⟨⟨mine,inside,rfl,rfl⟩,Nat.zero_le _,later⟩

theorem Manned.pieced {one : I} (manned : image.Manned world tree crew) (here : crew one = some (.writing path content count rest))
    (inside : count+more ≤ content.length) : image.Manned world
      {tree with disk := putAt tree.disk path count ((content.drop count).take more)}
      (Function.update crew one (some (.writing path content (count+more) rest))) := by
  obtain ⟨⟨mine,listed,rfl,rfl⟩,_,later⟩ := manned.leads one _ here
  obtain ⟨old,there,part,whole⟩ := manned.files mine listed
  have put := putAt_entry there count ((mine.content.drop count).take more)
  have apart : ∀ other, image.OnWay other → other ≠ mine.path := by
    rintro other way rfl
    exact way_not_file way ⟨mine,listed,rfl⟩
  refine ⟨putAt_shaped manned.shaped _ _ _,?_,?_,?_,leads_update manned.leads ?_⟩
  · intro other way
    dsimp only
    rw [put other,if_neg (apart other way)]
    exact manned.ways other way
  · intro file within
    dsimp only
    by_cases same : file.path = mine.path
    · obtain rfl := image.apart file within mine listed (same ▸ List.prefix_refl _)
      refine ⟨_,by rw [put _,if_pos rfl],overwrite_part inside part,?_⟩
      rcases whole with rfl | ⟨other,known,tail,busy,right⟩
      · exact .inl (part_whole (overwrite_part inside part) (overwrite_kept inside (fun _ _ => rfl) (Nat.le_refl _)))
      · by_cases own : other = one
        · subst own
          cases here.symm.trans busy
          exact .inr ⟨other,count+more,rest,Function.update_self ..,overwrite_grown inside right⟩
        · obtain ⟨_,bound,_⟩ := manned.leads other _ busy
          exact .inr ⟨other,known,tail,by rwa [Function.update_of_ne own],overwrite_kept inside right bound⟩
    · obtain ⟨held,still,parts,others⟩ := manned.files file within
      refine ⟨held,by rw [put _,if_neg same]; exact still,parts,others.imp_right ?_⟩
      rintro ⟨other,known,tail,busy,right⟩
      refine ⟨other,known,tail,?_,right⟩
      rwa [Function.update_of_ne]
      rintro rfl
      have both := here.symm.trans busy
      rw [Option.some.injEq,Progress.writing.injEq] at both
      exact same both.1.symm
  · refine manned.reopened fun other placed => ?_
    rw [put other]
    split
    · rfl
    · exact placed_present manned placed
  · rintro _ ⟨⟩
    exact ⟨⟨mine,listed,rfl,rfl⟩,inside,later⟩

theorem Manned.closed {one : I} (manned : image.Manned world tree crew)
    (here : crew one = some (.writing path content content.length rest)) :
    image.Manned world tree (Function.update crew one (some (.calls rest))) := by
  obtain ⟨_,_,later⟩ := manned.leads one _ here
  refine ⟨manned.shaped,manned.ways,?_,manned.open_,leads_update manned.leads ?_⟩
  · intro file inside
    obtain ⟨held,there,part,whole⟩ := manned.files file inside
    refine ⟨held,there,part,?_⟩
    rcases whole with whole | ⟨other,known,tail,busy,right⟩
    · exact .inl whole
    · by_cases own : other = one
      · subst own
        cases here.symm.trans busy
        exact .inl (part_whole part right)
      · exact .inr ⟨other,known,tail,by rwa [Function.update_of_ne own],right⟩
  · rintro _ ⟨⟩
    exact later

theorem Manned.advance {one : I} (manned : image.Manned world tree crew) (here : crew one = some before)
    (taken : Advance world before tree after next) : image.Manned world next (Function.update crew one (some after)) := by
  cases taken with
  | call other went =>
    obtain ⟨first,later⟩ := List.cons_subset.mp (manned.leads one _ here)
    have allowed := calls_allowed image _ first
    have shaped := ((origin_within image manned.fits).perform allowed went).shaped
    exact manned.idle (by simp [here]) (by rintro _ ⟨⟩; exact later) shaped (manned.open_.perform allowed went)
      (fun path placed => call_kept other went (placed_present manned placed))
  | empty went => exact manned.emptied here went
  | piece _ inside => exact manned.pieced here inside
  | close => exact manned.closed here

end Image

end Provisioning
