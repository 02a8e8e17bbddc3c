import AegisHoneypot.BodyCap
import AegisHoneypot.MergedView

-- The transcript of a download names a file; this is where the session finds
-- the bytes.
namespace AegisHoneypot.AnnouncedDownload
open FileTree Utf8Text GatewayHost OverlaySandbox PayloadFetch SessionInput FetchOutcomes EgressSafety Vfs MergedView

-- The name in the transcript: the last piece of the text of the URL.
def announcedName (url : Text) : Text :=
  let last := (url.split '/').getLast?.getD "payload".toList
  if last = [] then "index.html".toList else last

def savedName (parsed : Url) : Text := safeFilename (parsed.lastSegment.getD [])

theorem infix_right (found : middle <:+: text) (rest : Text) : middle <:+: text ++ rest :=
  found.trans (List.prefix_append text rest).isInfix

theorem line_named (front name : Text) : "Saving to: '".toList ++ name ++ "'\r\n".toList <:+:
    front ++ "K) [application/octet-stream]\r\nSaving to: '".toList ++ name ++ "'\r\n\r\n".toList := by
  have ended : "'\r\n\r\n".toList = "'\r\n".toList ++ "\r\n".toList := rfl
  have opened : "K) [application/octet-stream]\r\nSaving to: '".toList =
      "K) [application/octet-stream]\r\n".toList ++ "Saving to: '".toList := rfl
  refine ⟨front ++ "K) [application/octet-stream]\r\n".toList,"\r\n".toList,?_⟩
  rw [ended,opened]
  simp only [List.append_assoc]

theorem transcript_names (url : Text) (sizeKb : Nat) :
    "Saving to: '".toList ++ announcedName url ++ "'\r\n".toList <:+: fakeWgetProgress url sizeKb :=
  infix_right (infix_right (infix_right (infix_right (infix_right (infix_right (infix_right (infix_right (infix_right
    (line_named _ (announcedName url)) _) _) _) _) _) _) _) _) _

-- A mounted overlay: its top is a directory, and what is written to a file of an
-- existing directory is read back.
structure Writes (kernel : OverlayKernel) : Prop where
  top : ∀ options disk, (kernel.view options disk).entry options.target = some .dir
  kept : ∀ options disk path content, options.target <+: path.dropLast →
    (kernel.view options disk).entry path.dropLast = some .dir → (kernel.view options disk).entry path ≠ some .dir →
    (kernel.view options (kernel.apply options disk (.write path content))).entry path = some (.file content)

theorem write_entry (disk : Disk) (path : Path) (content : Bytes) (named : path ≠ [])
    (parent : entry disk path.dropLast = some .dir) (free : entry disk path ≠ some .dir) :
    entry (FileTree.apply disk (.write path content)) path = some (.file content) := by
  have inserted : entry (disk.insert path (.file content)) path = some (.file content) := by
    rw [entry,if_neg named]
    exact AList.lookup_insert disk
  change entry (writeThrough disk path (fun _ => content)) path = _
  unfold writeThrough
  cases held : entry disk path with
  | none =>
    have open_ : isDir disk path.dropLast = true := by
      unfold isDir
      rw [parent]
      rfl
    dsimp only
    rw [createAt,if_pos open_]
    exact inserted
  | some present =>
    cases present with
    | dir => exact absurd held free
    | file old => exact inserted

section Mounted
variable (kernel : OverlayKernel) (overlay : OverlayMount) (disk : Disk) (lowerDir path : Path)

theorem live_inside (inside : overlay.mountPoint <+: path) : ((layerFs kernel overlay).view ⟨disk,some lowerDir⟩).entry path =
    (kernel.view (overlay.options lowerDir) disk).entry path := if_pos inside

theorem live_outside (outside : ¬ overlay.mountPoint <+: path) :
    ((layerFs kernel overlay).view ⟨disk,some lowerDir⟩).entry path = entry disk path := if_neg outside

theorem live_apply_inside (op : DiskOp) (inside : overlay.mountPoint <+: op.target) :
    (layerFs kernel overlay).apply ⟨disk,some lowerDir⟩ op = ⟨kernel.apply (overlay.options lowerDir) disk op,some lowerDir⟩ :=
  if_pos inside

theorem live_apply_outside (op : DiskOp) (outside : ¬ overlay.mountPoint <+: op.target) :
    (layerFs kernel overlay).apply ⟨disk,some lowerDir⟩ op = ⟨FileTree.apply disk op,some lowerDir⟩ := if_neg outside

end Mounted

theorem layer_write (kernel : OverlayKernel) (overlay : OverlayMount) (writes : Writes kernel) (layer : Layer) (path : Path)
    (content : Bytes) (named : path ≠ []) (parent : ((layerFs kernel overlay).view layer).entry path.dropLast = some .dir)
    (free : ((layerFs kernel overlay).view layer).entry path ≠ some .dir) :
    ((layerFs kernel overlay).view ((layerFs kernel overlay).apply layer (.write path content))).entry path =
      some (.file content) := by
  obtain ⟨disk,live⟩ := layer
  cases live with
  | none => exact write_entry disk path content named parent free
  | some lowerDir =>
    by_cases inside : overlay.mountPoint <+: path
    · rw [live_inside kernel overlay disk lowerDir path inside] at free
      have below : overlay.mountPoint <+: path.dropLast := by
        rcases List.prefix_concat_iff.mp (List.dropLast_concat_getLast named ▸ inside) with same | above
        · rw [List.dropLast_concat_getLast named] at same
          exact absurd (same ▸ writes.top (overlay.options lowerDir) disk) free
        · exact above
      rw [live_inside kernel overlay disk lowerDir _ below] at parent
      rw [live_apply_inside kernel overlay disk lowerDir (.write path content) inside,live_inside _ _ _ _ _ inside]
      exact writes.kept (overlay.options lowerDir) disk path content below parent free
    · have outside : ¬ overlay.mountPoint <+: path.dropLast := fun above => inside (above.trans (List.dropLast_prefix path))
      rw [live_outside kernel overlay disk lowerDir _ outside] at parent
      rw [live_outside kernel overlay disk lowerDir _ inside] at free
      rw [live_apply_outside kernel overlay disk lowerDir (.write path content) inside,live_outside _ _ _ _ _ inside]
      exact write_entry disk path content named parent free

section Saved

theorem taken_start (candidate : Text) (plain : candidate.startsWith "." = false) (some_ : candidate ≠ []) :
    ∃ c rest, candidate.take 128 = c :: rest ∧ c ≠ '.' := by
  cases candidate with
  | nil => exact absurd rfl some_
  | cons c rest =>
    refine ⟨c,rest.take 127,rfl,?_⟩
    intro dot
    subst dot
    cases plain

-- The guard leaves one component of a path.
theorem savedName_plain (parsed : Url) : VirtualFileSystem.skipped (savedName parsed) = false := by
  unfold savedName safeFilename
  generalize parsed.lastSegment.getD [] = candidate
  split
  · rfl
  · rename_i other
    simp only [not_or] at other
    obtain ⟨some_,_,_,whole,_,start⟩ := other
    obtain ⟨c,rest,taken,plain⟩ := taken_start candidate (Bool.eq_false_iff.mpr start) some_
    have slash : '/' ∉ c :: rest := fun member => whole (List.mem_of_mem_take (taken ▸ member))
    rw [taken]
    simp only [VirtualFileSystem.skipped,Bool.or_eq_false_iff,beq_eq_false_iff_ne,List.contains_eq_mem,decide_eq_false_iff_not]
    refine ⟨⟨⟨List.cons_ne_nil c rest,?_⟩,?_⟩,slash⟩
    · intro same
      exact plain (List.cons.inj same).1
    · intro same
      exact plain (List.cons.inj same).1

theorem saved_place (parsed : Url) : Plain ["root".toList,savedName parsed] := by
  intro part member
  simp only [List.mem_cons,List.not_mem_nil,or_false] at member
  rcases member with rfl | rfl
  · rfl
  · exact savedName_plain parsed

theorem lookUp_layer (io : FetchIo) (parsed : Url) (host : Host) : (lookUp io parsed host).layer = host.layer := by
  unfold lookUp
  split
  · rfl
  · rfl

theorem dial_layer (io : FetchIo) (parsed : Url) (target : IpAddr × UInt16) (host : Host) :
    (dial io parsed target host).layer = host.layer := by
  unfold dial
  induction io.dials parsed target generalizing host with
  | nil => rfl
  | cons address rest ih => exact ih (host.note (.dialled address.1 address.2))

-- Where every step of the fetch succeeds, the last one keeps the body.
theorem delivery_kept (delivery : Delivery platform io job parsed target response) (host : Host) :
    (fetch platform io job host).1.1 = fakeWgetProgress job.url ((fetchedBytes job response).length/1024) ∧
    (fetch platform io job host).2 = keepPayload platform io (quarantinePath platform job response) job.mountRoot parsed
      (fetchedBytes job response) (dial io parsed target (lookUp io parsed host)) := by
  rw [BodyCap.fetch_delivered delivery host]
  exact ⟨rfl,rfl⟩

theorem keepPayload_layer (saves : io.saves = true) (target : Text) (mount : Path) (parsed : Url) (body : Bytes) (host : Host) :
    (keepPayload platform io target (some mount) parsed body host).layer =
      platform.fs.apply host.layer (.write (mount ++ ["root".toList,savedName parsed]) body) := by
  unfold keepPayload
  dsimp only
  rw [if_pos saves]
  cases io.quarantines with
  | false => rfl
  | true => rfl

end Saved

-- The bytes lie in the home directory, under the name that the guard makes. That
-- is the announced file for a session that is there, where the guard has nothing
-- to change.
theorem payload_found (platform : Platform) (writes : Writes platform.kernel) (io : FetchIo) (job : FetchJob) (host : Host)
    (vfs : VirtualFileSystem) (payload : PayloadInfo) (succeeded : (fetch platform io job host).1.2 = some payload)
    (parsed : Url) (parses : platform.parseUrl job.url = some parsed) (mount : Path) (given : job.mountRoot = some mount)
    (own : vfs.mountRoot = some mount) (saves : io.saves = true)
    (home : (platform.fs.view host.layer).entry (mount ++ ["root".toList]) = some .dir)
    (free : (platform.fs.view host.layer).entry (mount ++ ["root".toList,savedName parsed]) ≠ some .dir) :
    ∃ target response, Delivery platform io job parsed target response ∧
      "Saving to: '".toList ++ announcedName job.url ++ "'\r\n".toList <:+: (fetch platform io job host).1.1 ∧
      merged (platform.fs.view (fetch platform io job host).2.layer) vfs ["root".toList,savedName parsed] =
        some (.file (fetchedBytes job response)) ∧
      (vfs.currentPath = ["root".toList] → announcedName job.url = savedName parsed →
        merged (platform.fs.view (fetch platform io job host).2.layer) vfs (vfs.currentPath ++ [announcedName job.url]) =
          some (.file (fetchedBytes job response))) := by
  obtain ⟨_,_,_,outcome⟩ := fetch_stores platform io job host
  rcases outcome with ⟨_,nothing⟩ | ⟨other,target,response,delivery,_⟩
  · cases succeeded.symm.trans nothing
  · cases parses.symm.trans delivery.parses
    obtain ⟨said,after⟩ := delivery_kept delivery host
    have layer : (fetch platform io job host).2.layer =
        platform.fs.apply host.layer (.write (mount ++ ["root".toList,savedName parsed]) (fetchedBytes job response)) := by
      rw [after,given,keepPayload_layer saves,dial_layer,lookUp_layer]
    have parent : (mount ++ ["root".toList,savedName parsed]).dropLast = mount ++ ["root".toList] := by
      rw [List.dropLast_append_of_ne_nil (List.cons_ne_nil _ _)]
      rfl
    have read := layer_write platform.kernel platform.overlay writes host.layer (mount ++ ["root".toList,savedName parsed])
      (fetchedBytes job response) (by simp) (parent ▸ home) free
    have found : merged (platform.fs.view (fetch platform io job host).2.layer) vfs ["root".toList,savedName parsed] =
        some (.file (fetchedBytes job response)) := by
      have held : upper (platform.fs.view (fetch platform io job host).2.layer) vfs ["root".toList,savedName parsed] =
          some (.file (fetchedBytes job response)) := by
        rw [upper,VirtualFileSystem.resolveUpperPath,own,Option.map_some,diskPath_plain (saved_place parsed),layer]
        exact read
      exact merged_upper (List.cons_ne_nil _ _) held
    refine ⟨target,response,delivery,?named,found,?announced⟩
    case named =>
      rw [said]
      exact transcript_names job.url _
    case announced =>
      intro there same
      rw [there,same]
      exact found

-- A live mount of which the session sees its upper directory.
def upperMount : OverlayKernel where
  view options disk :=
    ⟨fun path => if path = options.target then some .dir else disk.lookup (redirected options path),
      fun path => names disk (redirected options path)⟩
  apply options disk op := match op with
    | .write path content => disk.insert (redirected options path) (.file content)
    | _ => disk

theorem upperMount_writes : Writes upperMount where
  top _ _ := if_pos rfl
  kept options disk path content inside parent free := by
    have longer : path ≠ options.target := by
      intro same
      have length := inside.length_le
      rw [← same,List.length_dropLast] at length
      have empty : path = [] := List.eq_nil_of_length_eq_zero (by omega)
      exact free (if_pos same)
    exact (if_neg longer).trans (AList.lookup_insert disk)

def homeJob : FetchJob :=
  ⟨"http://c2.example.com/x".toList,"./quarantine".toList,some ["session_7".toList,"mount".toList],1024⟩

def homePlatform : Platform := {webPlatform with kernel := upperMount,overlay := overlayAt [] "7".toList true}

def homeHost : Host :=
  ⟨⟨createDirAll ∅ ["session_7".toList,"upper".toList,"root".toList],some ["rootfs".toList]⟩,[]⟩

def homeVfs : VirtualFileSystem := VirtualFileSystem.withRoots homeJob.mountRoot (some ["rootfs".toList])

theorem payload_found_home :
    merged (homePlatform.fs.view (fetch homePlatform webFetch homeJob homeHost).2.layer) homeVfs ["root".toList,['x']] =
      some (.file [0x7f]) := by
  obtain ⟨target,response,delivery,_,_,announced⟩ := payload_found homePlatform upperMount_writes webFetch homeJob homeHost
    homeVfs _ rfl ⟨"http".toList,some "c2.example.com".toList,none,some 80,some ['x']⟩ rfl _ rfl rfl rfl rfl (by decide)
  cases delivery.answered
  exact announced rfl rfl

-- A name with a dot in front is announced as it stands, and `index.html` is saved.
def dotPlatform : Platform :=
  {homePlatform with parseUrl := fun _ => some ⟨"http".toList,some "c2.example.com".toList,none,some 80,some ".bashrc".toList⟩}

def dotJob : FetchJob := {homeJob with url := "http://c2.example.com/.bashrc".toList}

theorem dot_name_unsaved :
    (fetch dotPlatform webFetch dotJob homeHost).1.2.isSome = true ∧ dotJob.mountRoot = homeVfs.mountRoot ∧
    "Saving to: '".toList ++ ".bashrc".toList ++ "'\r\n".toList <:+: (fetch dotPlatform webFetch dotJob homeHost).1.1 ∧
    merged (dotPlatform.fs.view (fetch dotPlatform webFetch dotJob homeHost).2.layer) homeVfs
      (homeVfs.currentPath ++ [".bashrc".toList]) ≠ some (.file [0x7f]) := by
  refine ⟨rfl,rfl,transcript_names dotJob.url 0,?_⟩
  decide

end AegisHoneypot.AnnouncedDownload
